import EnergyChain.Oracle.Submissions

/-!
# x/oracle: provenance of the stored records

Registrations live under keys that no data write touches, so the registration
of an address is decided by the last accepted message of the authority about
it. A record is in the store only if its submitter was registered for its
category at the step that wrote it.
-/

namespace EnergyChain.Oracle

/-- The message writes a record under the key. -/
def Msg.Writes (k : Bytes) : Msg → Prop
  | .submitData msg =>
      k = getOracleDataKey msg.category msg.timestamp ∨ k = getLatestDataKey msg.category
  | _ => False

instance (k : Bytes) : (m : Msg) → Decidable (m.Writes k)
  | .submitData msg => inferInstanceAs (Decidable (k = getOracleDataKey msg.category msg.timestamp ∨
      k = getLatestDataKey msg.category))
  | .addOracle _ => isFalse id
  | .removeOracle _ => isFalse id

/-- The message decides about the registration of the address. -/
def Msg.Decides (address : Bytes) : Msg → Prop
  | .submitData _ => False
  | .addOracle msg => msg.oracleAddress = address
  | .removeOracle msg => msg.oracleAddress = address

def Msg.authority : Msg → Option Bytes
  | .submitData _ => none
  | .addOracle msg => some msg.authority
  | .removeOracle msg => some msg.authority

def Msg.ValidStrings : Msg → Prop
  | .submitData msg => ValidUTF8 msg.submitter ∧ ValidUTF8 msg.category ∧ ValidUTF8 msg.value ∧
      ValidUTF8 msg.metadata
  | .addOracle msg => ValidUTF8 msg.authority ∧ ValidUTF8 msg.oracleAddress ∧
      ValidUTF8 msg.name ∧ ∀ c ∈ msg.authorizedCategories, ValidUTF8 c
  | .removeOracle msg => ValidUTF8 msg.authority ∧ ValidUTF8 msg.oracleAddress

instance : (m : Msg) → Decidable m.ValidStrings
  | .submitData msg => inferInstanceAs (Decidable (ValidUTF8 msg.submitter ∧
      ValidUTF8 msg.category ∧ ValidUTF8 msg.value ∧ ValidUTF8 msg.metadata))
  | .addOracle msg => inferInstanceAs (Decidable (ValidUTF8 msg.authority ∧
      ValidUTF8 msg.oracleAddress ∧ ValidUTF8 msg.name ∧
      ∀ c ∈ msg.authorizedCategories, ValidUTF8 c))
  | .removeOracle msg => inferInstanceAs (Decidable (ValidUTF8 msg.authority ∧
      ValidUTF8 msg.oracleAddress))

variable (authority : Bytes)

/-- The registration an accepted `AddOracle` stores. -/
def MsgAddOracle.oracle (msg : MsgAddOracle) : OracleInfo :=
  { address := msg.oracleAddress, name := msg.name, active := true
    authorizedCategories := msg.authorizedCategories }

/-- `add` is the registration of the address that stands after the history:
no later message of it decides about the address. -/
def Registered (hist : List (Context × Msg)) (address : Bytes) (add : MsgAddOracle) : Prop :=
  ∃ before ctx between, hist = before ++ (ctx, .addOracle add) :: between ∧
    add.oracleAddress = address ∧ ∀ m ∈ between, ¬ m.2.Decides address

/-- The history has a submission of the record under the key that no later
one replaced, by a submitter registered for its category at that step. -/
def Provenance (hist : List (Context × Msg)) (k : Bytes) (d : OracleData) : Prop :=
  ∃ before ctx msg after, hist = before ++ (ctx, .submitData msg) :: after ∧
    d = msg.record ctx ∧ (Msg.submitData msg).Writes k ∧ (∀ m ∈ after, ¬ m.2.Writes k) ∧
    ∃ add, Registered before msg.submitter add ∧ add.authority = authority ∧
      (add.authorizedCategories = [] ∨ msg.category ∈ add.authorizedCategories)

/-! ### Registrations -/

/-- The registration of an address after an accepted message. -/
def Msg.register (address : Bytes) (current : Option MsgAddOracle) : Msg → Option MsgAddOracle
  | .submitData _ => current
  | .addOracle msg => if msg.oracleAddress = address then some msg else current
  | .removeOracle msg => if msg.oracleAddress = address then none else current

theorem Msg.register_of_not_decides {address : Bytes} {msg : Msg} (h : ¬ msg.Decides address)
    (current : Option MsgAddOracle) : msg.register address current = current := by
  cases msg with
  | submitData msg => rfl
  | addOracle msg => exact if_neg h
  | removeOracle msg => exact if_neg h

def registration (address : Bytes) (hist : List (Context × Msg)) : Option MsgAddOracle :=
  hist.foldl (fun current m => m.2.register address current) none

theorem registration_append (address : Bytes) (hist : List (Context × Msg)) (m : Context × Msg) :
    registration address (hist ++ [m]) = m.2.register address (registration address hist) := by
  rw [registration, List.foldl_append]
  rfl

theorem registered_of_registration {address : Bytes} {hist : List (Context × Msg)}
    {add : MsgAddOracle} (h : registration address hist = some add) :
    Registered hist address add := by
  induction hist using List.reverseRecOn with
  | nil => cases h
  | append_singleton hist m ih =>
    rw [registration_append] at h
    by_cases hdecides : m.2.Decides address
    · obtain ⟨ctx, msg | msg | msg⟩ := m
      · exact absurd hdecides id
      · have hadd : some msg = some add := (if_pos hdecides).symm.trans h
        obtain rfl := Option.some.inj hadd
        exact ⟨hist, ctx, [], rfl, hdecides, by simp⟩
      · have hnone : none = some add := (if_pos hdecides).symm.trans h
        cases hnone
    · rw [Msg.register_of_not_decides hdecides] at h
      obtain ⟨before, ctx, between, rfl, haddr, hbetween⟩ := ih h
      refine ⟨before, ctx, between ++ [m], by simp, haddr, fun m' hm' => ?_⟩
      rcases List.mem_append.mp hm' with hm' | hm'
      · exact hbetween m' hm'
      · rw [List.mem_singleton.mp hm']
        exact hdecides

theorem get_setOracleData_oracleKey (store : KVStore) (d : OracleData) (address : Bytes) :
    (setOracleData store d).get (getOracleKey address) = store.get (getOracleKey address) := by
  have hdata : getOracleKey address ≠ getOracleDataKey d.category d.timestamp := fun heq => by
    have hhead := congrArg List.head? heq
    simp [(head_key [] address 0).2.1, (head_key d.category [] d.timestamp).1] at hhead
  have hlatest : getOracleKey address ≠ getLatestDataKey d.category := fun heq => by
    have hhead := congrArg List.head? heq
    simp [(head_key [] address 0).2.1, (head_key d.category [] 0).2.2.1] at hhead
  rw [setOracleData, OrderedStore.get_set_of_ne _ hlatest, OrderedStore.get_set_of_ne _ hdata]

theorem run_registration (ms : List (Context × Msg)) (address : Bytes) :
    ((deliver authority).run genesisStore ms).get (getOracleKey address) =
      (registration address ((deliver authority).history genesisStore ms)).map
        fun add => marshal add.oracle := by
  refine (deliver authority).run_induction (P := fun store hist =>
    store.get (getOracleKey address) =
      (registration address hist).map fun add => marshal add.oracle) ms ?_ ?_ ?_
  · have hne : getOracleKey address ≠ paramsKey := fun heq => by
      have hhead := congrArg List.head? heq
      simp [(head_key [] address 0).2.1, (head_key [] [] 0).2.2.2] at hhead
    exact OrderedStore.get_set_of_ne _ hne _
  · intro store hist ih m _ hacc
    rcases deliver_cases authority store m with ⟨e, he⟩ | ⟨ctx, msg, rfl, -, -, -, hok⟩ |
      ⟨ctx, msg, rfl, -, hok⟩ | ⟨ctx, msg, info, rfl, -, -, hok⟩
    · obtain ⟨r, hr⟩ := hacc
      simp [he] at hr
    · rw [hok, registration_append, get_setOracleData_oracleKey]
      exact ih
    · rw [hok, registration_append, Msg.register, addOracle, OrderedStore.get_set]
      simp only [getOracleKey_inj, eq_comm (a := address)]
      split_ifs
      · rfl
      · exact ih
    · rw [hok, registration_append, Msg.register, removeOracle, OrderedStore.get_delete]
      simp only [getOracleKey_inj, eq_comm (a := address)]
      split_ifs
      · rfl
      · exact ih
  · intro store hist ih m _ hrej
    rw [deliver_reject authority hrej]
    exact ih

theorem oracle_coerced {add : MsgAddOracle} (h : (Msg.addOracle add).ValidStrings) :
    add.oracle.coerced = add.oracle := by
  obtain ⟨-, haddr, hname, hcategories⟩ := h
  have hmap : add.authorizedCategories.map coerceUTF8 = add.authorizedCategories := by
    conv_rhs => rw [← List.map_id add.authorizedCategories]
    apply List.map_congr_left
    intro c hc
    exact coerceUTF8_of_valid (hcategories c hc)
  simp [OracleInfo.coerced, MsgAddOracle.oracle, coerceUTF8_of_valid haddr,
    coerceUTF8_of_valid hname, hmap]

theorem authority_of_mem_history {ms : List (Context × Msg)} {ctx : Context} {add : MsgAddOracle}
    (h : (ctx, Msg.addOracle add) ∈ (deliver authority).history genesisStore ms) :
    add.authority = authority := by
  obtain ⟨before, after, heq⟩ := List.append_of_mem h
  obtain ⟨pre, post, -, -, r, hr⟩ := (deliver authority).exists_of_history_eq heq
  by_contra hne
  simp [deliver, addOracleMsg, hne] at hr

theorem registered_of_authorized {ms : List (Context × Msg)}
    (hvalid : ∀ m ∈ ms, m.2.ValidStrings) {address category : Bytes}
    (h : isAuthorizedOracle ((deliver authority).run genesisStore ms) address category = true) :
    ∃ add, Registered ((deliver authority).history genesisStore ms) address add ∧
      add.authority = authority ∧
      (add.authorizedCategories = [] ∨ category ∈ add.authorizedCategories) := by
  rw [isAuthorizedOracle, getOracle, run_registration] at h
  cases hreg : registration address ((deliver authority).history genesisStore ms) with
  | none => simp [hreg] at h
  | some add =>
    have hadd := registered_of_registration hreg
    obtain ⟨before, ctx, between, heq, -, -⟩ := id hadd
    have hmem : (ctx, Msg.addOracle add) ∈ (deliver authority).history genesisStore ms := by
      simp [heq]
    have hcoerced := oracle_coerced (hvalid _ ((deliver authority).history_subset _ _ hmem))
    refine ⟨add, hadd, authority_of_mem_history authority hmem, ?_⟩
    simp only [hreg, Option.map_some, unmarshal_marshal, OracleInfo.unmarshal_marshal,
      hcoerced] at h
    simpa [OracleInfo.isAuthorizedFor, MsgAddOracle.oracle] using h

/-! ### Records -/

def IsDataKey (k : Bytes) : Prop :=
  oracleDataKeyPrefix <+: k ∨ latestDataKeyPrefix <+: k

theorem not_isDataKey_oracleKey (address : Bytes) : ¬ IsDataKey (getOracleKey address) := by
  simp [IsDataKey, getOracleKey, oracleDataKeyPrefix, latestDataKeyPrefix, oracleInfoKeyPrefix]

/-- The accepted submission that wrote the value under the key, the last of
those that write it. -/
def WrittenBy (hist : List (Context × Msg)) (k : Bytes) (v : StoredValue) : Prop :=
  ∃ before ctx msg after, hist = before ++ (ctx, .submitData msg) :: after ∧
    v = marshal (msg.record ctx) ∧ (Msg.submitData msg).Writes k ∧ ∀ m ∈ after, ¬ m.2.Writes k

theorem WrittenBy.append {hist : List (Context × Msg)} {k : Bytes} {v : StoredValue}
    (h : WrittenBy hist k v) {m : Context × Msg} (hm : ¬ m.2.Writes k) :
    WrittenBy (hist ++ [m]) k v := by
  obtain ⟨before, ctx, msg, after, rfl, hv, hwrites, hafter⟩ := h
  refine ⟨before, ctx, msg, after ++ [m], by simp, hv, hwrites, fun m' hm' => ?_⟩
  rcases List.mem_append.mp hm' with hm' | hm'
  · exact hafter m' hm'
  · rw [List.mem_singleton.mp hm']
    exact hm

theorem get_setOracleData (store : KVStore) (ctx : Context) (msg : MsgSubmitData) (k : Bytes) :
    (setOracleData store (msg.record ctx)).get k =
      if (Msg.submitData msg).Writes k then some (marshal (msg.record ctx)) else store.get k := by
  rw [setOracleData, OrderedStore.get_set, OrderedStore.get_set]
  simp only [MsgSubmitData.record, Msg.Writes]
  split_ifs <;> grind

theorem isAuthorizedOracle_of_accepts {store : KVStore} {ctx : Context} {msg : MsgSubmitData}
    (h : (deliver authority).Accepts store (ctx, .submitData msg)) :
    isAuthorizedOracle store msg.submitter msg.category = true := by
  obtain ⟨r, hr⟩ := h
  by_contra hauth
  have hfalse : isAuthorizedOracle store msg.submitter msg.category = false := by simpa using hauth
  simp [deliver, submitDataMsg, hfalse] at hr

theorem record_coerced (ctx : Context) {msg : MsgSubmitData}
    (h : (Msg.submitData msg).ValidStrings) : (msg.record ctx).coerced = msg.record ctx := by
  obtain ⟨hsubmitter, hcategory, hvalue, hmetadata⟩ := h
  simp [OracleData.coerced, MsgSubmitData.record, coerceUTF8_of_valid hsubmitter,
    coerceUTF8_of_valid hcategory, coerceUTF8_of_valid hvalue, coerceUTF8_of_valid hmetadata]

theorem run_written (ms : List (Context × Msg)) (k : Bytes) (hk : IsDataKey k) (v : StoredValue)
    (hget : ((deliver authority).run genesisStore ms).get k = some v) :
    WrittenBy ((deliver authority).history genesisStore ms) k v := by
  revert hget
  refine (deliver authority).run_induction (P := fun store hist =>
    store.get k = some v → WrittenBy hist k v) ms ?_ ?_ ?_
  · intro hget
    have hne : k ≠ paramsKey := by
      rintro rfl
      simp [IsDataKey, paramsKey, ascii, oracleDataKeyPrefix, latestDataKeyPrefix] at hk
    rw [show genesisStore.get k = none from OrderedStore.get_set_of_ne _ hne _] at hget
    cases hget
  · intro store hist ih m _ hacc hget
    rcases deliver_cases authority store m with ⟨e, he⟩ | ⟨ctx, msg, rfl, -, -, -, hok⟩ |
      ⟨ctx, msg, rfl, -, hok⟩ | ⟨ctx, msg, info, rfl, -, -, hok⟩
    · obtain ⟨r, hr⟩ := hacc
      simp [he] at hr
    · by_cases hwrites : (Msg.submitData msg).Writes k
      · rw [hok, get_setOracleData, if_pos hwrites] at hget
        exact ⟨hist, ctx, msg, [], rfl, (Option.some.inj hget).symm, hwrites, by simp⟩
      · rw [hok, get_setOracleData, if_neg hwrites] at hget
        exact (ih hget).append hwrites
    · have hne : k ≠ getOracleKey msg.oracleAddress := by
        rintro rfl
        exact not_isDataKey_oracleKey _ hk
      rw [hok, addOracle, OrderedStore.get_set_of_ne _ hne] at hget
      exact (ih hget).append id
    · have hne : k ≠ getOracleKey msg.oracleAddress := by
        rintro rfl
        exact not_isDataKey_oracleKey _ hk
      rw [hok, removeOracle, OrderedStore.get_delete, if_neg hne] at hget
      exact (ih hget).append id
  · intro store hist ih m _ hrej
    rw [deliver_reject authority hrej]
    exact ih

/-- A key of the history table is that of an accepted submission, and holds its
record. -/
theorem run_history {ms : List (Context × Msg)} {k : Bytes} {v : StoredValue}
    (hk : oracleDataKeyPrefix <+: k)
    (hget : ((deliver authority).run genesisStore ms).get k = some v) :
    ∃ ctx msg, (ctx, Msg.submitData msg) ∈ (deliver authority).history genesisStore ms ∧
      k = getOracleDataKey msg.category msg.timestamp ∧ v = marshal (msg.record ctx) := by
  obtain ⟨before, ctx, msg, after, hhist, rfl, hwrites, -⟩ :=
    run_written authority ms k (Or.inl hk) v hget
  refine ⟨ctx, msg, by simp [hhist], ?_, rfl⟩
  rcases hwrites with hdata | hlatest
  · exact hdata
  · rw [hlatest] at hk
    simp [oracleDataKeyPrefix, getLatestDataKey, latestDataKeyPrefix] at hk

/-! ### The set of registered oracles -/

/-- What the keeper reads of the registrations is the same in both stores. -/
def SameOracles (store store' : KVStore) : Prop :=
  (∀ address, getOracle store' address = getOracle store address) ∧
    getAllOracles store' = getAllOracles store

theorem sameOracles_of_get {store store' : KVStore}
    (h : ∀ k, oracleInfoKeyPrefix <+: k → store'.get k = store.get k) :
    SameOracles store store' := by
  refine ⟨fun address => ?_, ?_⟩
  · rw [getOracle, getOracle, h (getOracleKey address) (List.prefix_append _ _)]
  · rw [getAllOracles, getAllOracles, OrderedStore.prefixIterator_congr h]

/-- Only a message signed by the module authority changes the registrations. -/
theorem deliver_sameOracles (store : KVStore) (m : Context × Msg)
    (h : m.2.authority ≠ some authority) : SameOracles store (deliver authority store m).1 := by
  rcases deliver_cases authority store m with ⟨e, he⟩ | ⟨ctx, msg, rfl, -, -, -, hok⟩ |
    ⟨ctx, msg, rfl, hauth, hok⟩ | ⟨ctx, msg, info, rfl, hauth, -, hok⟩
  · rw [he]
    exact ⟨fun _ => rfl, rfl⟩
  · rw [hok]
    apply sameOracles_of_get
    rintro _ ⟨address, rfl⟩
    exact get_setOracleData_oracleKey store _ address
  · exact absurd (congrArg some hauth) h
  · exact absurd (congrArg some hauth) h

/-- Every stored record was written by a submitter the authority had
registered for its category; only the authority changes the registrations, and
rejected messages change nothing. -/
theorem oracle_provenance (ms : List (Context × Msg)) (hvalid : ∀ m ∈ ms, m.2.ValidStrings) :
    (∀ k v d, IsDataKey k → ((deliver authority).run genesisStore ms).get k = some v →
      v.unmarshal = some d →
      Provenance authority ((deliver authority).history genesisStore ms) k d) ∧
    ∀ pre m post, ms = pre ++ m :: post →
      (¬ SameOracles ((deliver authority).run genesisStore pre)
          ((deliver authority).run genesisStore (pre ++ [m])) →
        m.2.authority = some authority) ∧
      (¬ (deliver authority).Accepts ((deliver authority).run genesisStore pre) m →
        (deliver authority).run genesisStore (pre ++ [m]) =
          (deliver authority).run genesisStore pre) := by
  refine ⟨fun k v d hk hget hread => ?_, fun pre m post hms => ⟨fun hchanged => ?_, fun hrej => ?_⟩⟩
  · obtain ⟨before, ctx, msg, after, hhist, rfl, hwrites, hafter⟩ :=
      run_written authority ms k hk v hget
    obtain ⟨pre, post, rfl, rfl, hacc⟩ := (deliver authority).exists_of_history_eq hhist
    have hmsg : (Msg.submitData msg).ValidStrings := hvalid (ctx, .submitData msg) (by simp)
    have hpre : ∀ m ∈ pre, m.2.ValidStrings := fun m hm => hvalid m (by simp [hm])
    have hauth := isAuthorizedOracle_of_accepts authority hacc
    obtain ⟨add, hadd, hsigned, hcategory⟩ := registered_of_authorized authority hpre hauth
    rw [unmarshal_marshal, OracleData.unmarshal_marshal, record_coerced ctx hmsg] at hread
    exact ⟨_, ctx, msg, after, hhist, (Option.some.inj hread).symm, hwrites, hafter, add, hadd,
      hsigned, hcategory⟩
  · by_contra hne
    rw [Handler.run_append] at hchanged
    exact hchanged (deliver_sameOracles authority _ m hne)
  · rw [Handler.run_append]
    exact deliver_reject authority hrej

/-- The first of the two spot prices, after both were reported. -/
theorem oracle_provenance_twoReports :
    Provenance sampleAddress
      ((deliver sampleAddress).history genesisStore (twoReports 1700000000 1700000050))
      (getOracleDataKey (ascii "spot_price") 1700000000)
      (spotPrice sampleAddress (ascii "35000") 1700000000) := by
  have hread : (((deliver sampleAddress).run genesisStore
      (twoReports 1700000000 1700000050)).get
      (getOracleDataKey (ascii "spot_price") 1700000000)).bind StoredValue.unmarshal =
      some (spotPrice sampleAddress (ascii "35000") 1700000000) := by decide +kernel
  obtain ⟨v, hget, hv⟩ := Option.bind_eq_some_iff.mp hread
  exact (oracle_provenance sampleAddress _ (by decide +kernel)).1 _ v _
    (Or.inl (List.prefix_append _ _)) hget hv

end EnergyChain.Oracle
