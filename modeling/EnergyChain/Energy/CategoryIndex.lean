import EnergyChain.Energy.GenesisRestart

/-!
# x/energy: the category index

The index entries of a category are read by the prefix of its keys and lead to
whatever record their identifier has. The keys of a category that holds a zero
byte lie under the prefix of a shorter one, so the answers are exact only for
categories without it, written as JSON keeps them.
-/

namespace EnergyChain.Energy

variable (keccak256 : Bytes → Bytes)

def Msg.category : Msg → Bytes
  | .submitEnergyData msg => msg.category
  | .batchSubmit msg => msg.category

/-- The IDs of the records an accepted message writes. -/
def recordIDs (store : KVStore) (m : Context × Msg) : List Bytes :=
  if (deliver keccak256).Accepts store m then
    match m with
    | (_, .submitEnergyData _) => [(generateID store).2]
    | (ctx, .batchSubmit msg) => itemIDs ctx msg (generateID store).1 msg.items
  else []

/-- The category and the ID of every record written in a run. -/
def written : KVStore → List (Context × Msg) → List (Bytes × Bytes)
  | _, [] => []
  | store, m :: ms =>
    (recordIDs keccak256 store m).map (fun id => (m.2.category, id)) ++
      written (deliver keccak256 store m).1 ms

/-- For every category the query returns the stored records of that category,
each once, and no other record. -/
def CategoryIndexExact (store : KVStore) : Prop :=
  ∀ c, (getEnergyDataByCategory store c).Perm
    ((getAllData store).filter fun d => decide (d.category = c))

/-- The categories are valid UTF-8 without a zero byte, and no ID stands for
records of two categories. -/
def Separable (pairs : List (Bytes × Bytes)) : Prop :=
  ∀ p ∈ pairs, ValidUTF8 p.1 ∧ (0 : Byte) ∉ p.1 ∧ ∀ q ∈ pairs, q.2 = p.2 → q.1 = p.1

instance (pairs : List (Bytes × Bytes)) : Decidable (Separable pairs) :=
  inferInstanceAs (Decidable (∀ p ∈ pairs, _))

/-! ### The entries of the index -/

theorem get_submitEnergyData_categoryKey (store : KVStore) (d : EnergyData) {k : Bytes}
    (hk : energyByCategoryPrefix <+: k) : (submitEnergyData store d).get k =
      if k = getEnergyByCategoryKey d.category d.id then some (.raw d.id) else store.get k := by
  have hne : ∀ {k' : Bytes} {b : Byte}, k'.head? = some b → b ≠ 0x02 → k ≠ k' := by
    rintro k' b hb hb2 rfl
    obtain ⟨rest, rfl⟩ := hk
    exact hb2 (Option.some.inj hb).symm
  rw [submitEnergyData,
    OrderedStore.get_set_of_ne _ (hne (head_key d.id d.submitter).2.2.1 (by decide)),
    OrderedStore.get_set,
    OrderedStore.get_set_of_ne _ (hne (head_key d.id d.category).1 (by decide))]
  split_ifs
  · rfl
  · rfl

/-- The index has an entry for each written pair and no other; the record under
an ID has a category written with it. -/
structure Indexed (store : KVStore) (pairs : List (Bytes × Bytes)) : Prop where
  index : ∀ k v, energyByCategoryPrefix <+: k → (store.get k = some v ↔
    ∃ p ∈ pairs, k = getEnergyByCategoryKey p.1 p.2 ∧ v = .raw p.2)
  record : ∀ id v, store.get (getEnergyDataKey id) = some v →
    ∃ d : EnergyData, v = marshal d ∧ d.id = id ∧ (d.category, id) ∈ pairs
  stored : ∀ p ∈ pairs, ∃ v, store.get (getEnergyDataKey p.2) = some v
  ids : ∀ p ∈ pairs, ∃ n, p.2 = energyID n

namespace Indexed

variable {store : KVStore} {pairs : List (Bytes × Bytes)}

theorem congr (h : Indexed store pairs) {store' : KVStore}
    (hget : ∀ k : Bytes, k.head? = some 0x01 ∨ k.head? = some 0x02 → store'.get k = store.get k) :
    Indexed store' pairs where
  index k v hk := by
    obtain ⟨rest, rfl⟩ := id hk
    rw [hget _ (Or.inr rfl)]
    exact h.index _ v hk
  record id v hv := h.record id v (by rwa [hget _ (Or.inl rfl)] at hv)
  stored p hp := by
    rw [hget _ (Or.inl rfl)]
    exact h.stored p hp
  ids := h.ids

theorem generateID (h : Indexed store pairs) : Indexed (generateID store).1 pairs :=
  h.congr fun k hk => get_generateID_of_head store (by rcases hk with hk | hk <;> simp [hk])

theorem submitBatch (h : Indexed store pairs) (b : BatchSubmission) :
    Indexed (submitBatch store b) pairs :=
  h.congr fun k hk => get_submitBatch_of_head store b (by rcases hk with hk | hk <;> simp [hk])

theorem submitEnergyData (h : Indexed store pairs) {d : EnergyData} {n : ℕ}
    (hid : d.id = energyID n) :
    Indexed (submitEnergyData store d) (pairs ++ [(d.category, d.id)]) where
  index k v hk := by
    have hzero : (0 : Byte) ∉ d.id := hid ▸ zero_notMem_energyID n
    rw [get_submitEnergyData_categoryKey store d hk]
    split_ifs with hnew
    · constructor
      · intro hv
        exact ⟨(d.category, d.id), by simp, hnew, (Option.some.inj hv).symm⟩
      · rintro ⟨p, hp, hkey, rfl⟩
        -- Equal keys have equal identifiers, whatever their categories are.
        have hpid : (0 : Byte) ∉ p.2 := by
          rcases List.mem_append.mp hp with hp | hp
          · obtain ⟨m, hm⟩ := h.ids p hp
            exact hm ▸ zero_notMem_energyID m
          · rw [List.mem_singleton.mp hp]
            exact hzero
        rw [((getEnergyByCategoryKey_inj hzero hpid).mp (hnew.symm.trans hkey)).2]
    · rw [h.index k v hk]
      constructor
      · rintro ⟨p, hp, hkey, hv⟩
        exact ⟨p, List.mem_append_left _ hp, hkey, hv⟩
      · rintro ⟨p, hp, hkey, hv⟩
        rcases List.mem_append.mp hp with hp | hp
        · exact ⟨p, hp, hkey, hv⟩
        · rw [List.mem_singleton.mp hp] at hkey
          exact absurd hkey hnew
  record id v hv := by
    rw [get_submitEnergyData_dataKey] at hv
    split_ifs at hv with heq
    · exact ⟨d, (Option.some.inj hv).symm, heq.symm, by simp [heq]⟩
    · obtain ⟨d', rfl, hid', hmem⟩ := h.record id v hv
      exact ⟨d', rfl, hid', List.mem_append_left _ hmem⟩
  stored p hp := by
    rw [get_submitEnergyData_dataKey]
    split_ifs with heq
    · exact ⟨_, rfl⟩
    · rcases List.mem_append.mp hp with hp | hp
      · exact h.stored p hp
      · rw [List.mem_singleton.mp hp] at heq
        exact absurd rfl heq
  ids p hp := by
    rcases List.mem_append.mp hp with hp | hp
    · exact h.ids p hp
    · rw [List.mem_singleton.mp hp]
      exact ⟨n, hid⟩

theorem submitItem (h : Indexed store pairs) (ctx : Context) (msg : MsgBatchSubmit)
    (item : BatchItem) : Indexed (submitItem ctx msg store item).1
      (pairs ++ [(msg.category, (submitItem ctx msg store item).2)]) :=
  h.generateID.submitEnergyData rfl

theorem submitItems (h : Indexed store pairs) (ctx : Context) (msg : MsgBatchSubmit)
    (items : List BatchItem) :
    Indexed (items.foldl (fun store item => (Energy.submitItem ctx msg store item).1) store)
      (pairs ++ (itemIDs ctx msg store items).map fun id => (msg.category, id)) := by
  induction items generalizing store pairs with
  | nil => simpa [itemIDs] using h
  | cons item rest ih => simpa [itemIDs] using ih (h.submitItem ctx msg item)

end Indexed

theorem deliver_indexed {store : KVStore} {pairs : List (Bytes × Bytes)}
    (h : Indexed store pairs) (m : Context × Msg) :
    Indexed (deliver keccak256 store m).1
      (pairs ++ (recordIDs keccak256 store m).map fun id => (m.2.category, id)) := by
  unfold recordIDs
  split_ifs with hacc
  · obtain ⟨r, hr⟩ := hacc
    obtain ⟨ctx, msg | msg⟩ := m
    · simp only [deliver, submitEnergyDataMsg] at hr ⊢
      split_ifs at hr ⊢ with hallowed
      exact h.generateID.submitEnergyData rfl
    · rcases batchSubmitMsg_cases keccak256 ctx store msg with ⟨e, he⟩ | ⟨-, -, -, hok⟩
      · simp [deliver, he] at hr
      simp only [deliver, hok]
      exact (h.generateID.submitItems ctx msg msg.items).submitBatch _
  · rw [deliver_reject keccak256 hacc]
    simpa using h

theorem run_indexed (ms : List (Context × Msg)) {store : KVStore}
    {pairs : List (Bytes × Bytes)} (h : Indexed store pairs) :
    Indexed ((deliver keccak256).run store ms) (pairs ++ written keccak256 store ms) := by
  induction ms generalizing store pairs with
  | nil => simpa [written] using h
  | cons m ms ih => simpa [written] using ih (deliver_indexed keccak256 h m)

theorem genesisStore_indexed : Indexed genesisStore [] := by
  have hnone : ∀ k : Bytes, k.head? ≠ some 0x65 → genesisStore.get k = none := by
    intro k hk
    have hne : k ≠ paramsKey := by
      rintro rfl
      exact hk rfl
    exact OrderedStore.get_set_of_ne _ hne _
  refine ⟨fun k v hk => ?_, fun id v hv => ?_, by simp, by simp⟩
  · obtain ⟨rest, rfl⟩ := hk
    rw [hnone _ (by simp [energyByCategoryPrefix])]
    simp
  · rw [hnone _ (by simp [head_key id id])] at hv
    cases hv

/-! ### What the query reads -/

section Query

variable {store : KVStore} {pairs : List (Bytes × Bytes)}

/-- An entry lies under the prefix of its category, and under those of the
parts of its category that stand in front of a zero byte. -/
theorem categoryPrefix_isPrefix {c x id : Bytes} (hid : (0 : Byte) ∉ id) :
    getEnergyByCategoryPrefixKey c <+: getEnergyByCategoryKey x id ↔
      c = x ∨ c ++ [0x00] <+: x := by
  simpa [getEnergyByCategoryPrefixKey, getEnergyByCategoryKey, energyByCategoryPrefix] using
    append_sep_isPrefix_iff (p := c) (q := x) hid

namespace Indexed

theorem zero_notMem (h : Indexed store pairs) {p : Bytes × Bytes} (hp : p ∈ pairs) :
    (0 : Byte) ∉ p.2 := by
  obtain ⟨n, hn⟩ := h.ids p hp
  exact hn ▸ zero_notMem_energyID n

theorem of_getEnergyData (h : Indexed store pairs) {id : Bytes} {d : EnergyData}
    (hd : getEnergyData store id = some d) :
    d.id = id ∧ ∃ x, (x, id) ∈ pairs ∧ d.category = coerceUTF8 x := by
  unfold getEnergyData at hd
  cases hv : store.get (getEnergyDataKey id) with
  | none => simp [hv] at hd
  | some v =>
    obtain ⟨d', rfl, rfl, hmem⟩ := h.record id v hv
    have hcoerced : d'.coerced = d := by simpa [hv] using hd
    obtain ⟨n, hn⟩ : ∃ n, d'.id = energyID n := h.ids _ hmem
    have hid : coerceUTF8 d'.id = d'.id := coerceUTF8_of_valid (hn ▸ validUTF8_energyID n)
    rw [← hcoerced]
    exact ⟨hid, d'.category, hmem, rfl⟩

theorem exists_record (h : Indexed store pairs) {p : Bytes × Bytes} (hp : p ∈ pairs) :
    ∃ d, getEnergyData store p.2 = some d := by
  obtain ⟨v, hv⟩ := h.stored p hp
  obtain ⟨d, rfl, -, -⟩ := h.record p.2 v hv
  exact ⟨d.coerced, by simp [getEnergyData, hv]⟩

theorem mem_getEnergyDataByCategory (h : Indexed store pairs) {c : Bytes} {d : EnergyData} :
    d ∈ getEnergyDataByCategory store c ↔
      ∃ p ∈ pairs, (c = p.1 ∨ c ++ [0x00] <+: p.1) ∧ getEnergyData store p.2 = some d := by
  simp only [getEnergyDataByCategory, getEnergyDataByIndex, List.mem_filterMap, Prod.exists,
    OrderedStore.mem_prefixIterator]
  have htable : ∀ k, getEnergyByCategoryPrefixKey c <+: k → energyByCategoryPrefix <+: k := by
    intro k hk
    exact ((List.prefix_append _ _).trans (List.prefix_append _ _)).trans hk
  constructor
  · rintro ⟨k, v, ⟨hk, hget⟩, hd⟩
    obtain ⟨p, hp, rfl, rfl⟩ := (h.index k v (htable k hk)).mp hget
    exact ⟨p.1, p.2, hp, (categoryPrefix_isPrefix (h.zero_notMem hp)).mp hk, hd⟩
  · rintro ⟨x, id, hp, hpre, hd⟩
    have hk := (categoryPrefix_isPrefix (h.zero_notMem hp)).mpr hpre
    exact ⟨_, _, ⟨hk, (h.index _ _ (htable _ hk)).mpr ⟨(x, id), hp, rfl, rfl⟩⟩, hd⟩

theorem mem_getAllData (h : Indexed store pairs) {d : EnergyData} :
    d ∈ getAllData store ↔ getEnergyData store d.id = some d := by
  simp only [getAllData, List.mem_filterMap, Prod.exists, OrderedStore.mem_prefixIterator]
  constructor
  · rintro ⟨k, v, ⟨⟨id, rfl⟩, hget⟩, hd⟩
    have hread : getEnergyData store id = some d := by
      simp only [getEnergyData, getEnergyDataKey, hget]
      exact hd
    rw [(h.of_getEnergyData hread).1]
    exact hread
  · intro hd
    unfold getEnergyData at hd
    cases hv : store.get (getEnergyDataKey d.id) with
    | none => simp [hv] at hd
    | some v => exact ⟨_, v, ⟨List.prefix_append _ _, hv⟩, by simpa [hv] using hd⟩

theorem getAllData_nodup (h : Indexed store pairs) : (getAllData store).Nodup := by
  refine OrderedStore.nodup_filterMap_of_key (store.prefixIterator_keys_nodup _)
    (fun d => getEnergyDataKey d.id) ?_
  rintro ⟨k, v⟩ he d hd
  obtain ⟨⟨id, rfl⟩, hget⟩ := (OrderedStore.mem_prefixIterator store).mp he
  have hread : getEnergyData store id = some d := by
    simp only [getEnergyData, getEnergyDataKey, hget]
    exact hd
  rw [(h.of_getEnergyData hread).1]
  rfl

theorem found (h : Indexed store pairs) (hexact : CategoryIndexExact store) {c x id : Bytes}
    (hp : (x, id) ∈ pairs) (hpre : c = x ∨ c ++ [0x00] <+: x) :
    ∃ d y, (y, id) ∈ pairs ∧ getEnergyData store id = some d ∧ d.category = coerceUTF8 y ∧
      d.category = c := by
  obtain ⟨d, hd⟩ := h.exists_record hp
  obtain ⟨-, y, hy, hcategory⟩ := h.of_getEnergyData hd
  have hmem := (hexact c).mem_iff.mp (h.mem_getEnergyDataByCategory.mpr ⟨_, hp, hpre, hd⟩)
  exact ⟨d, y, hy, hd, hcategory, by simpa using (List.mem_filter.mp hmem).2⟩

theorem of_separable (h : Indexed store pairs) (hsep : Separable pairs) {p : Bytes × Bytes}
    (hp : p ∈ pairs) {d : EnergyData} (hd : getEnergyData store p.2 = some d) :
    d.id = p.2 ∧ d.category = p.1 := by
  obtain ⟨hid, x, hx, hcategory⟩ := h.of_getEnergyData hd
  obtain ⟨hvalid, -, hsame⟩ := hsep p hp
  have hxp : x = p.1 := hsame _ hx rfl
  exact ⟨hid, by rw [hcategory, hxp, coerceUTF8_of_valid hvalid]⟩

theorem getEnergyDataByCategory_nodup (h : Indexed store pairs) (hsep : Separable pairs)
    (c : Bytes) : (getEnergyDataByCategory store c).Nodup := by
  refine OrderedStore.nodup_filterMap_of_key (store.prefixIterator_keys_nodup _)
    (fun d => getEnergyByCategoryKey d.category d.id) ?_
  rintro ⟨k, v⟩ he d hd
  obtain ⟨hk, hget⟩ := (OrderedStore.mem_prefixIterator store).mp he
  have htable : energyByCategoryPrefix <+: k :=
    ((List.prefix_append _ _).trans (List.prefix_append _ _)).trans hk
  obtain ⟨p, hp, rfl, rfl⟩ := (h.index k v htable).mp hget
  obtain ⟨hid, hcategory⟩ := h.of_separable hsep hp hd
  rw [hid, hcategory]

end Indexed

theorem Indexed.exact_iff (h : Indexed store pairs) :
    CategoryIndexExact store ↔ Separable pairs := by
  constructor
  · intro hexact
    have hsame : ∀ {x y id : Bytes}, (x, id) ∈ pairs → (y, id) ∈ pairs → x = y := by
      intro x y id hx hy
      obtain ⟨d, -, -, hd, -, hdx⟩ := h.found hexact hx (Or.inl rfl)
      obtain ⟨d', -, -, hd', -, hdy⟩ := h.found hexact hy (Or.inl rfl)
      rw [← hdx, ← hdy, Option.some.inj (hd.symm.trans hd')]
    rintro ⟨x, id⟩ hp
    obtain ⟨d, y, hy, hd, hcoerce, hread⟩ := h.found hexact hp (Or.inl rfl)
    refine ⟨?_, fun hzero => ?_, ?_⟩
    · rw [hsame hy hp, hread] at hcoerce
      exact coerceUTF8_eq_self_iff.mp hcoerce.symm
    · -- The part in front of the zero byte finds the record as well.
      obtain ⟨c, rest, rfl⟩ := List.append_of_mem hzero
      obtain ⟨d', -, -, hd', -, hshort⟩ := h.found hexact (c := c) hp (Or.inr ⟨rest, by simp⟩)
      rw [← Option.some.inj (hd.symm.trans hd'), hread] at hshort
      have hlength := congrArg List.length hshort
      simp only [List.length_append, List.length_cons] at hlength
      omega
    · rintro ⟨x', id'⟩ hq rfl
      exact hsame hq hp
  · intro hsep c
    refine (List.perm_ext_iff_of_nodup (h.getEnergyDataByCategory_nodup hsep c)
      (h.getAllData_nodup.filter _)).mpr fun d => ?_
    rw [h.mem_getEnergyDataByCategory, List.mem_filter, h.mem_getAllData, decide_eq_true_iff]
    constructor
    · rintro ⟨p, hp, hpre, hd⟩
      obtain ⟨hid, hcategory⟩ := h.of_separable hsep hp hd
      rcases hpre with rfl | hpre
      · rw [hid]
        exact ⟨hd, hcategory⟩
      · exact absurd (hpre.subset (by simp)) (hsep p hp).2.1
    · rintro ⟨hd, rfl⟩
      obtain ⟨-, x, hx, hcategory⟩ := h.of_getEnergyData hd
      rw [coerceUTF8_of_valid (hsep _ hx).1] at hcategory
      exact ⟨(x, d.id), hx, Or.inl hcategory, hd⟩

end Query

/-- The category index is exact in the state a run reaches when and only when
the categories written in the run are separable. -/
theorem categoryIndex_exact_iff (ms : List (Context × Msg)) :
    CategoryIndexExact ((deliver keccak256).run genesisStore ms) ↔
      Separable (written keccak256 genesisStore ms) := by
  have hindexed := run_indexed keccak256 ms genesisStore_indexed
  rw [List.nil_append] at hindexed
  exact hindexed.exact_iff

def submission (category : Bytes) : Context × Msg :=
  ({ blockHeight := 7, blockTime := 1700000000, txBytes := [] },
    .submitEnergyData { submitter := sampleAddress, category, dataHash := ascii "abc"
                        metadata := [] })

/-- The query for `meter` returns the record whose category goes on with a zero byte and
`roof`. -/
theorem categoryIndex_not_exact :
    ¬ ∀ (keccak256 : Bytes → Bytes) (ms : List (Context × Msg)),
      (∀ m ∈ ms, m.2.validateBasic sampleDecoder = .ok ()) →
      CategoryIndexExact ((deliver keccak256).run genesisStore ms) := by
  intro h
  have hbasic : ∀ m ∈ [submission (ascii "meter" ++ 0x00 :: ascii "roof")],
      m.2.validateBasic sampleDecoder = .ok () := by
    intro m hm
    rw [List.mem_singleton.mp hm]
    decide +kernel
  have hperm := h (fun _ => []) _ hbasic (ascii "meter")
  have hlength := hperm.length_eq
  exact absurd hlength (by decide +kernel)

end EnergyChain.Energy
