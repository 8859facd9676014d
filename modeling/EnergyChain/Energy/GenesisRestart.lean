import EnergyChain.Energy.AppendOnly

/-!
# x/energy: export and import of the genesis state

The exported genesis has the parameters, the records and the batches, but not
the ID counter. A chain restarted from it counts from one again, into the IDs
of the records it was given.
-/

namespace EnergyChain.Energy

variable (keccak256 : Bytes → Bytes)

/-- The store of a chain started from the exported state of another. -/
def restart (store : KVStore) : KVStore := initGenesis OrderedStore.empty (exportGenesis store)

/-- Two stores answer every query alike. -/
structure SameAnswers (s t : KVStore) : Prop where
  data : ∀ id, getEnergyData s id = getEnergyData t id
  byCategory : ∀ c, getEnergyDataByCategory s c = getEnergyDataByCategory t c
  bySubmitter : ∀ a, getEnergyDataBySubmitter s a = getEnergyDataBySubmitter t a
  allData : getAllData s = getAllData t
  batch : ∀ id, getBatch s id = getBatch t id
  allBatches : getAllBatches s = getAllBatches t
  params : getParams s = getParams t

/-- A restart from the exported state goes unnoticed: queries answer as before,
the next ID is the same, and no message delivered later overwrites what was
stored. -/
structure SurvivesRestart (store : KVStore) : Prop where
  answers : SameAnswers (restart store) store
  nextID : (generateID (restart store)).2 = (generateID store).2
  keepsData : ∀ ms id d, getEnergyData (restart store) id = some d →
    getEnergyData ((deliver keccak256).run (restart store) ms) id = some d
  keepsBatches : ∀ ms id b, getBatch (restart store) id = some b →
    getBatch ((deliver keccak256).run (restart store) ms) id = some b

/-! ### What the writes leave alone -/

section Frames

variable (store : KVStore)

theorem ne_of_head {k k' : Bytes} {b : Byte} (h : k.head? ≠ some b) (h' : k'.head? = some b) :
    k ≠ k' := fun heq => h (heq ▸ h')

theorem get_submitEnergyData_of_head (d : EnergyData) {k : Bytes} (h1 : k.head? ≠ some 0x01)
    (h2 : k.head? ≠ some 0x02) (h3 : k.head? ≠ some 0x03) :
    (submitEnergyData store d).get k = store.get k := by
  obtain ⟨hd, hc, -⟩ := head_key d.id d.category
  obtain ⟨-, -, hs, -⟩ := head_key d.id d.submitter
  rw [submitEnergyData, OrderedStore.get_set_of_ne _ (ne_of_head h3 hs),
    OrderedStore.get_set_of_ne _ (ne_of_head h2 hc),
    OrderedStore.get_set_of_ne _ (ne_of_head h1 hd)]

theorem get_submitEnergyData_dataKey (d : EnergyData) (id : Bytes) :
    (submitEnergyData store d).get (getEnergyDataKey id) =
      if id = d.id then some (marshal d) else store.get (getEnergyDataKey id) := by
  have hcat : getEnergyDataKey id ≠ getEnergyByCategoryKey d.category d.id :=
    fun h => by simp [getEnergyDataKey, energyDataKeyPrefix, getEnergyByCategoryKey,
      energyByCategoryPrefix] at h
  have hsub : getEnergyDataKey id ≠ getEnergyBySubmitterKey d.submitter d.id :=
    fun h => by simp [getEnergyDataKey, energyDataKeyPrefix, getEnergyBySubmitterKey,
      energyBySubmitterPrefix] at h
  rw [submitEnergyData, OrderedStore.get_set_of_ne _ hsub, OrderedStore.get_set_of_ne _ hcat,
    OrderedStore.get_set]
  simp

theorem get_submitBatch_of_head (b : BatchSubmission) {k : Bytes} (h : k.head? ≠ some 0x04) :
    (submitBatch store b).get k = store.get k :=
  OrderedStore.get_set_of_ne _ (ne_of_head h (head_key b.id b.submitter).2.2.2.1) _

theorem get_generateID_of_head {k : Bytes} (h : k.head? ≠ some 0x05) :
    (generateID store).1.get k = store.get k :=
  OrderedStore.get_set_of_ne _ (ne_of_head h rfl) _

@[simp] theorem dataCounter_generateID :
    dataCounter (generateID store).1 = dataCounter store + 1 := by
  simp [dataCounter, generateID]

end Frames

theorem getParams_congr {s t : KVStore} (h : s.get paramsKey = t.get paramsKey) :
    getParams s = getParams t := by
  simp only [getParams, h]

theorem dataCounter_congr {s t : KVStore} (h : s.get dataCounterKey = t.get dataCounterKey) :
    dataCounter s = dataCounter t := by
  simp only [dataCounter, h]

theorem getEnergyData_congr {s t : KVStore} {id : Bytes}
    (h : s.get (getEnergyDataKey id) = t.get (getEnergyDataKey id)) :
    getEnergyData s id = getEnergyData t id := by
  simp only [getEnergyData, h]

theorem getEnergyData_submitEnergyData_self (store : KVStore) (d : EnergyData) :
    getEnergyData (submitEnergyData store d) d.id = some d.coerced := by
  simp [getEnergyData, get_submitEnergyData_dataKey]

/-! ### Counting from zero reaches every ID -/

section Overwriting

theorem deliver_submit {store : KVStore} (hparams : getParams store = defaultParams)
    (ctx : Context) (msg : MsgSubmitEnergyData) :
    getParams (deliver keccak256 store (ctx, .submitEnergyData msg)).1 = defaultParams ∧
    dataCounter (deliver keccak256 store (ctx, .submitEnergyData msg)).1 =
      dataCounter store + 1 ∧
    ∃ d, getEnergyData (deliver keccak256 store (ctx, .submitEnergyData msg)).1
      (energyID (dataCounter store + 1).toNat) = some d ∧ d.category = coerceUTF8 msg.category := by
  have hallowed : isAllowedSubmitter store msg.submitter = true := by
    simp [isAllowedSubmitter, hparams, defaultParams]
  simp only [deliver, submitEnergyDataMsg, hallowed, Bool.not_true, Bool.false_eq_true, if_false]
  refine ⟨?_, ?_, ?_⟩
  · rw [← hparams]
    refine getParams_congr ?_
    rw [get_submitEnergyData_of_head _ _ (by decide) (by decide) (by decide),
      get_generateID_of_head _ (by decide)]
  · rw [← dataCounter_generateID]
    exact dataCounter_congr
      (get_submitEnergyData_of_head _ _ (by decide) (by decide) (by decide))
  · exact ⟨_, getEnergyData_submitEnergyData_self _ _, rfl⟩

theorem run_replicate_submit {store : KVStore} (hparams : getParams store = defaultParams)
    (hcounter : dataCounter store = 0) (ctx : Context) (msg : MsgSubmitEnergyData) (n : ℕ) :
    getParams ((deliver keccak256).run store
      (List.replicate n (ctx, .submitEnergyData msg))) = defaultParams ∧
    dataCounter ((deliver keccak256).run store
      (List.replicate n (ctx, .submitEnergyData msg))) = UInt64.ofNat n := by
  induction n with
  | zero => exact ⟨hparams, hcounter⟩
  | succ n ih =>
    rw [List.replicate_succ', Handler.run_append]
    obtain ⟨hp, hc, -⟩ := deliver_submit keccak256 ih.1 ctx msg
    exact ⟨hp, by simpa [ih.2] using hc⟩

/-- Any stored record can be overwritten once the counter is back at zero. -/
theorem exists_overwriting_run {store : KVStore} (hparams : getParams store = defaultParams)
    (hcounter : dataCounter store = 0) (c : UInt64) (d : EnergyData) :
    ∃ ms, getEnergyData ((deliver keccak256).run store ms) (energyID c.toNat) ≠ some d := by
  let ctx : Context := { blockHeight := 0, blockTime := 0, txBytes := [] }
  let msg : Bytes → MsgSubmitEnergyData := fun category =>
    { submitter := sampleAddress, category, dataHash := ascii "abc", metadata := [] }
  have hreach : ∀ category, ∃ ms d', getEnergyData ((deliver keccak256).run store ms)
      (energyID c.toNat) = some d' ∧ d'.category = coerceUTF8 category := by
    intro category
    obtain ⟨hp, hn⟩ := run_replicate_submit keccak256 hparams hcounter ctx (msg category)
      (c - 1).toNat
    obtain ⟨-, -, d', hd', hcat⟩ := deliver_submit keccak256 hp ctx (msg category)
    refine ⟨List.replicate (c - 1).toNat (ctx, .submitEnergyData (msg category)) ++
      [(ctx, .submitEnergyData (msg category))], d', ?_, hcat⟩
    rw [Handler.run_append]
    simpa [hn] using hd'
  -- Two runs leave records of different categories there; one of them is not `d`.
  obtain ⟨ms, x, hx, hxc⟩ := hreach (ascii "a")
  obtain ⟨ms', y, hy, hyc⟩ := hreach (ascii "b")
  by_contra hall
  push Not at hall
  have hxd := Option.some.inj (hx.symm.trans (hall ms))
  have hyd := Option.some.inj (hy.symm.trans (hall ms'))
  have hcat : coerceUTF8 (ascii "a") = coerceUTF8 (ascii "b") := by rw [← hxc, ← hyc, hxd, hyd]
  exact absurd hcat (by decide)

end Overwriting

/-! ### Stores of a running chain -/

/-- The parameters are the default ones, and what is stored as a record is one
under the ID of some counter value. No bound on the counter is assumed. -/
structure Kept (store : KVStore) : Prop where
  params : getParams store = defaultParams
  records : ∀ id v, store.get (getEnergyDataKey id) = some v →
    ∃ (c : UInt64) (d : EnergyData), id = energyID c.toNat ∧ d.id = id ∧ v = marshal d

namespace Kept

variable {store : KVStore}

theorem generateID (h : Kept store) : Kept (generateID store).1 where
  params := (getParams_congr (get_generateID_of_head store (by decide))).trans h.params
  records id v hv := h.records id v (by rwa [get_generateID_of_head store (by simp [head_key id id])]
    at hv)

theorem submitEnergyData (h : Kept store) {d : EnergyData} {c : UInt64}
    (hid : d.id = energyID c.toNat) : Kept (submitEnergyData store d) where
  params := (getParams_congr (get_submitEnergyData_of_head store d (by decide) (by decide)
    (by decide))).trans h.params
  records id v hv := by
    rw [get_submitEnergyData_dataKey] at hv
    split_ifs at hv with heq
    · exact ⟨c, d, heq.trans hid, heq.symm, (Option.some.inj hv).symm⟩
    · exact h.records id v hv

theorem submitBatch (h : Kept store) (b : BatchSubmission) : Kept (submitBatch store b) where
  params := (getParams_congr (get_submitBatch_of_head store b (by decide))).trans h.params
  records id v hv := h.records id v (by rwa [get_submitBatch_of_head store b
    (by simp [head_key id id])] at hv)

theorem submitItem (h : Kept store) (ctx : Context) (msg : MsgBatchSubmit) (item : BatchItem) :
    Kept (submitItem ctx msg store item).1 := h.generateID.submitEnergyData rfl

theorem submitItems (h : Kept store) (ctx : Context) (msg : MsgBatchSubmit)
    (items : List BatchItem) :
    Kept (items.foldl (fun store item => (Energy.submitItem ctx msg store item).1) store) := by
  induction items generalizing store with
  | nil => exact h
  | cons item rest ih => exact ih (h.submitItem ctx msg item)

end Kept

def HasRecord (store : KVStore) : Prop := ∃ id v, store.get (getEnergyDataKey id) = some v

theorem hasRecord_submitItem (store : KVStore) (ctx : Context) (msg : MsgBatchSubmit)
    (item : BatchItem) : HasRecord (submitItem ctx msg store item).1 :=
  ⟨_, _, (get_submitEnergyData_dataKey _ _ _).trans (if_pos rfl)⟩

theorem hasRecord_submitItems (store : KVStore) (ctx : Context) (msg : MsgBatchSubmit)
    {items : List BatchItem} (hne : items ≠ []) :
    HasRecord (items.foldl (fun store item => (submitItem ctx msg store item).1) store) := by
  obtain ⟨rest, item, rfl⟩ := (List.eq_nil_or_concat' items).resolve_left hne
  rw [List.foldl_append]
  exact hasRecord_submitItem _ ctx msg item

theorem run_kept (ms : List (Context × Msg)) :
    Kept ((deliver keccak256).run genesisStore ms) ∧
      ((deliver keccak256).history genesisStore ms ≠ [] →
        HasRecord ((deliver keccak256).run genesisStore ms)) := by
  refine (deliver keccak256).run_induction (P := fun store hist =>
    Kept store ∧ (hist ≠ [] → HasRecord store)) ms ⟨⟨rfl, ?_⟩, fun h => absurd rfl h⟩ ?_ ?_
  · intro id v hv
    have hnone := OrderedStore.get_eq_none_iff_of_perm genesisStore_represents.entries
      (k := getEnergyDataKey id)
    rw [hnone.mpr (by simp [contents, counterEntry, getEnergyDataKey, energyDataKeyPrefix,
      paramsKey_eq])] at hv
    cases hv
  · rintro store hist ⟨hkept, -⟩ ⟨ctx, msg | msg⟩ - ⟨r, hr⟩
    · have hallowed : isAllowedSubmitter store msg.submitter = true := by
        simp [isAllowedSubmitter, hkept.params, defaultParams]
      simp only [deliver, submitEnergyDataMsg, hallowed, Bool.not_true, Bool.false_eq_true,
        if_false]
      exact ⟨hkept.generateID.submitEnergyData rfl,
        fun _ => ⟨_, _, (get_submitEnergyData_dataKey _ _ _).trans (if_pos rfl)⟩⟩
    · rcases batchSubmitMsg_cases keccak256 ctx store msg with ⟨e, he⟩ | ⟨-, -, hroot, hok⟩
      · simp [deliver, he] at hr
      have hne := ((verifyMerkleRoot_ok_iff keccak256 _ _).mp hroot).1
      obtain ⟨id, v, hv⟩ := hasRecord_submitItems (generateID store).1 ctx msg hne
      simp only [deliver, hok, submitItems]
      refine ⟨(hkept.generateID.submitItems ctx msg msg.items).submitBatch _, fun _ => ⟨id, v, ?_⟩⟩
      rw [get_submitBatch_of_head _ _ (by simp [head_key id id])]
      exact hv
  · rintro store hist ih m - hrej
    rw [deliver_reject keccak256 hrej]
    exact ih

/-! ### The restarted store -/

section Restart

theorem foldl_submitBatch_get_of_head (bs : List BatchSubmission) (store : KVStore) {k : Bytes}
    (h : k.head? ≠ some 0x04) : (bs.foldl submitBatch store).get k = store.get k := by
  induction bs generalizing store with
  | nil => rfl
  | cons b bs ih => rw [List.foldl_cons, ih, get_submitBatch_of_head store b h]

theorem foldl_submitEnergyData_get_of_head (rs : List EnergyData) (store : KVStore) {k : Bytes}
    (h1 : k.head? ≠ some 0x01) (h2 : k.head? ≠ some 0x02) (h3 : k.head? ≠ some 0x03) :
    (rs.foldl submitEnergyData store).get k = store.get k := by
  induction rs generalizing store with
  | nil => rfl
  | cons d rs ih => rw [List.foldl_cons, ih, get_submitEnergyData_of_head store d h1 h2 h3]

variable (store : KVStore)

theorem dataCounter_restart : dataCounter (restart store) = 0 := by
  have hnone : (restart store).get dataCounterKey = none := by
    rw [restart, initGenesis, foldl_submitBatch_get_of_head _ _ (by decide),
      foldl_submitEnergyData_get_of_head _ _ (by decide) (by decide) (by decide), setParams,
      OrderedStore.get_set_of_ne _ (by decide)]
    rfl
  simp [dataCounter, hnone]

theorem getParams_restart : getParams (restart store) = (getParams store).coerced := by
  have hget : (restart store).get paramsKey = some (marshal (getParams store)) := by
    rw [restart, initGenesis, foldl_submitBatch_get_of_head _ _ (by decide),
      foldl_submitEnergyData_get_of_head _ _ (by decide) (by decide) (by decide), setParams,
      OrderedStore.get_set_self]
    rfl
  simp [getParams, hget]

theorem exists_imported {store : KVStore} (h : getAllData store ≠ []) :
    ∃ d ∈ getAllData store, getEnergyData (restart store) d.id = some d.coerced := by
  obtain ⟨rs, d, hrs⟩ := (List.eq_nil_or_concat' (getAllData store)).resolve_left h
  refine ⟨d, by simp [hrs], ?_⟩
  have hget := foldl_submitBatch_get_of_head (getAllBatches store)
    ((getAllData store).foldl submitEnergyData (setParams OrderedStore.empty (getParams store)))
    (k := getEnergyDataKey d.id) (by simp [head_key d.id d.id])
  refine (getEnergyData_congr hget).trans ?_
  rw [hrs, List.foldl_append]
  exact getEnergyData_submitEnergyData_self _ d

end Restart

theorem getAllData_ne_nil {store : KVStore} (hkept : Kept store) (h : HasRecord store) :
    getAllData store ≠ [] := by
  obtain ⟨id, v, hv⟩ := h
  obtain ⟨c, d, -, -, rfl⟩ := hkept.records id v hv
  have hmem : (getEnergyDataKey id, marshal d) ∈ store.prefixIterator energyDataKeyPrefix :=
    (OrderedStore.mem_prefixIterator store).mpr ⟨List.prefix_append _ _, hv⟩
  have hd : d.coerced ∈ getAllData store := List.mem_filterMap.mpr ⟨_, hmem, by simp⟩
  exact List.ne_nil_of_mem hd

theorem id_of_mem_getAllData {store : KVStore} (hkept : Kept store) {d : EnergyData}
    (hd : d ∈ getAllData store) : ∃ c : UInt64, d.id = energyID c.toNat := by
  obtain ⟨⟨k, v⟩, hkv, hunmarshal⟩ := List.mem_filterMap.mp hd
  obtain ⟨⟨id, rfl⟩, hget⟩ := (OrderedStore.mem_prefixIterator store).mp hkv
  obtain ⟨c, d', rfl, hid, rfl⟩ := hkept.records id v hget
  have hcoerced : d'.coerced = d := by simpa using hunmarshal
  exact ⟨c, by rw [← hcoerced, EnergyData.coerced, hid,
    coerceUTF8_of_valid (validUTF8_energyID _)]⟩

/-- A chain survives the restart exactly when it had accepted no message. -/
theorem survivesRestart_iff (ms : List (Context × Msg)) :
    SurvivesRestart keccak256 ((deliver keccak256).run genesisStore ms) ↔
      (deliver keccak256).history genesisStore ms = [] := by
  obtain ⟨hkept, hrecord⟩ := run_kept keccak256 ms
  constructor
  · intro h
    by_contra hne
    obtain ⟨d, hd, himported⟩ := exists_imported (getAllData_ne_nil hkept (hrecord hne))
    obtain ⟨c, hc⟩ := id_of_mem_getAllData hkept hd
    have hparams : getParams (restart ((deliver keccak256).run genesisStore ms)) =
        defaultParams := by rw [getParams_restart, hkept.params]; rfl
    obtain ⟨ms', hms'⟩ := exists_overwriting_run keccak256 hparams (dataCounter_restart _) c
      d.coerced
    rw [hc] at himported
    exact hms' (h.keepsData ms' _ _ himported)
  · intro hnil
    have hstore : (deliver keccak256).run genesisStore ms = genesisStore := by
      refine (deliver keccak256).run_induction (P := fun store hist =>
        hist = [] → store = genesisStore) ms (fun _ => rfl) ?_ ?_ hnil
      · intro store hist _ m _ _ h
        simp at h
      · intro store hist ih m _ hrej h
        rw [deliver_reject keccak256 hrej, ih h]
    have hrestart : restart genesisStore = genesisStore := rfl
    rw [hstore]
    refine ⟨?_, by rw [hrestart], fun ms' id d hd => ?_, fun ms' id b hb => ?_⟩
    · rw [hrestart]
      exact ⟨fun _ => rfl, fun _ => rfl, fun _ => rfl, rfl, fun _ => rfl, rfl, rfl⟩
    · rw [hrestart] at hd
      obtain ⟨d', hd', -⟩ := genesisStore_represents.getEnergyData_eq_some.mp hd
      cases hd'
    · rw [hrestart] at hb
      obtain ⟨b', hb', -⟩ := genesisStore_represents.getBatch_eq_some.mp hb
      cases hb'

/-- After one submission the restarted chain repeats the ID it was given. -/
theorem restart_repeats_id :
    ¬ ∀ ms : List (Context × Msg), SurvivesRestart keccakOfPair
      ((deliver keccakOfPair).run genesisStore ms) := by
  intro h
  have hnext := (h (sampleRun.take 1)).nextID
  have hrestarted : (generateID (restart ((deliver keccakOfPair).run genesisStore
      (sampleRun.take 1)))).2 = energyID 1 := by decide +kernel
  have hrunning : (generateID ((deliver keccakOfPair).run genesisStore (sampleRun.take 1))).2 =
      energyID 2 := by decide +kernel
  rw [hrestarted, hrunning] at hnext
  exact absurd (energyID_injective hnext) (by decide)

end EnergyChain.Energy
