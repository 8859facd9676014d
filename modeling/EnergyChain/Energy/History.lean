import EnergyChain.Energy.MsgServer

/-!
# x/energy: the store as a log of accepted messages

The abstract module is a log. Accepted messages are numbered in the order of
acceptance; one that finds `n` IDs drawn before it uses the IDs `n + 1`,
`n + 2`, and so on. `Represents` says that a store holds exactly the counter,
the parameters and the entries of a list of records and a list of batches;
the message server keeps it, extending both lists by what the log says.
-/

namespace EnergyChain.Energy

/-! ### The log -/

/-- Number of IDs an accepted message draws. -/
def Msg.idCount : Msg → ℕ
  | .submitEnergyData _ => 1
  | .batchSubmit msg => msg.items.length + 1

def issued (hist : List (Context × Msg)) : ℕ := (hist.map fun m => m.2.idCount).sum

/-- Each accepted message with the number of IDs drawn before it. -/
def placed : ℕ → List (Context × Msg) → List (ℕ × Context × Msg)
  | _, [] => []
  | n, m :: ms => (n, m) :: placed (n + m.2.idCount) ms

/-- The records of consecutive items, the first under the ID after `n`. -/
def itemRecords (ctx : Context) (msg : MsgBatchSubmit) : ℕ → List BatchItem → List EnergyData
  | _, [] => []
  | n, item :: rest =>
    { id := energyID (n + 1), category := msg.category, submitter := msg.submitter
      dataHash := item.dataHash, metadata := item.metadata
      blockHeight := ctx.blockHeight, timestamp := ctx.blockTime } ::
    itemRecords ctx msg (n + 1) rest

/-- The records an accepted message creates when `n` IDs are drawn before it. -/
def createdRecords : ℕ × Context × Msg → List EnergyData
  | (n, ctx, .submitEnergyData msg) =>
    [{ id := energyID (n + 1), category := msg.category, submitter := msg.submitter
       dataHash := msg.dataHash, metadata := msg.metadata
       blockHeight := ctx.blockHeight, timestamp := ctx.blockTime }]
  | (n, ctx, .batchSubmit msg) => itemRecords ctx msg (n + 1) msg.items

def createdBatches : ℕ × Context × Msg → List BatchSubmission
  | (_, _, .submitEnergyData _) => []
  | (n, ctx, .batchSubmit msg) =>
    [{ id := energyID (n + 1), submitter := msg.submitter, category := msg.category
       dataCount := UInt32.ofNat msg.items.length, merkleRoot := msg.merkleRoot
       timestamp := ctx.blockTime }]

def loggedRecords (hist : List (Context × Msg)) : List EnergyData :=
  (placed 0 hist).flatMap createdRecords

def loggedBatches (hist : List (Context × Msg)) : List BatchSubmission :=
  (placed 0 hist).flatMap createdBatches

theorem issued_append (hist : List (Context × Msg)) (m : Context × Msg) :
    issued (hist ++ [m]) = issued hist + m.2.idCount := by
  simp [issued]

theorem placed_append (n : ℕ) (hist hist' : List (Context × Msg)) :
    placed n (hist ++ hist') = placed n hist ++ placed (n + issued hist) hist' := by
  induction hist generalizing n with
  | nil => simp [placed, issued]
  | cons a hist ih =>
    simp only [List.cons_append, placed, ih, List.cons.injEq, true_and]
    simp [issued, Nat.add_assoc]

theorem loggedRecords_append (hist : List (Context × Msg)) (m : Context × Msg) :
    loggedRecords (hist ++ [m]) = loggedRecords hist ++ createdRecords (issued hist, m) := by
  simp [loggedRecords, placed_append, placed]

theorem loggedBatches_append (hist : List (Context × Msg)) (m : Context × Msg) :
    loggedBatches (hist ++ [m]) = loggedBatches hist ++ createdBatches (issued hist, m) := by
  simp [loggedBatches, placed_append, placed]

theorem logged_subset_append (hist hist' : List (Context × Msg)) :
    loggedRecords hist ⊆ loggedRecords (hist ++ hist') ∧
      loggedBatches hist ⊆ loggedBatches (hist ++ hist') := by
  simp [loggedRecords, loggedBatches, placed_append]

theorem mem_of_mem_placed {n k : ℕ} {m : Context × Msg} {hist : List (Context × Msg)}
    (h : (k, m) ∈ placed n hist) : m ∈ hist := by
  induction hist generalizing n with
  | nil => cases h
  | cons a hist ih =>
    rcases List.mem_cons.mp h with heq | h
    · simp [(Prod.mk.inj heq).2]
    · exact List.mem_cons_of_mem _ (ih h)

/-- The messages of a log draw from disjoint stretches of numbers. -/
theorem placed_apart {n k k' : ℕ} {m m' : Context × Msg} {hist : List (Context × Msg)}
    (h : (k, m) ∈ placed n hist) (h' : (k', m') ∈ placed n hist) :
    (k, m) = (k', m') ∨ k + m.2.idCount ≤ k' ∨ k' + m'.2.idCount ≤ k := by
  have hle : ∀ {n k : ℕ} {m : Context × Msg} {hist : List (Context × Msg)},
      (k, m) ∈ placed n hist → n ≤ k := by
    intro n k m hist hm
    induction hist generalizing n with
    | nil => cases hm
    | cons a hist ih =>
      rcases List.mem_cons.mp hm with heq | hm
      · exact (Prod.mk.inj heq).1.ge
      · exact (Nat.le_add_right _ _).trans (ih hm)
  induction hist generalizing n with
  | nil => cases h
  | cons a hist ih =>
    rcases List.mem_cons.mp h with heq | h <;> rcases List.mem_cons.mp h' with heq' | h'
    · exact Or.inl (heq.trans heq'.symm)
    · obtain ⟨rfl, rfl⟩ := Prod.mk.inj heq
      exact Or.inr (Or.inl (hle h'))
    · obtain ⟨rfl, rfl⟩ := Prod.mk.inj heq'
      exact Or.inr (Or.inr (hle h))
    · exact ih h h'

theorem itemRecords_ids (ctx : Context) (msg : MsgBatchSubmit) (n : ℕ) (items : List BatchItem) :
    (itemRecords ctx msg n items).map EnergyData.id =
      (List.range' (n + 1) items.length).map energyID := by
  induction items generalizing n with
  | nil => rfl
  | cons item rest ih =>
    rw [itemRecords, List.map_cons, ih, List.length_cons, List.range'_succ, List.map_cons]

theorem itemRecords_dataHashes (ctx : Context) (msg : MsgBatchSubmit) (n : ℕ)
    (items : List BatchItem) : (itemRecords ctx msg n items).map EnergyData.dataHash =
      items.map BatchItem.dataHash := by
  induction items generalizing n with
  | nil => rfl
  | cons item rest ih => rw [itemRecords, List.map_cons, ih, List.map_cons]

theorem mem_itemRecords {ctx : Context} {msg : MsgBatchSubmit} {n : ℕ} {items : List BatchItem}
    {d : EnergyData} (h : d ∈ itemRecords ctx msg n items) :
    d.submitter = msg.submitter ∧ d.category = msg.category ∧ d.timestamp = ctx.blockTime := by
  induction items generalizing n with
  | nil => cases h
  | cons item rest ih =>
    rcases List.mem_cons.mp h with rfl | h
    · exact ⟨rfl, rfl, rfl⟩
    · exact ih h

theorem submitter_of_mem_loggedRecords {hist : List (Context × Msg)} {d : EnergyData}
    (h : d ∈ loggedRecords hist) : ∃ m ∈ hist, d.submitter = m.2.submitter := by
  obtain ⟨⟨k, m⟩, hm, hd⟩ := List.mem_flatMap.mp h
  refine ⟨m, mem_of_mem_placed hm, ?_⟩
  obtain ⟨ctx, msg | msg⟩ := m
  · rw [List.mem_singleton.mp hd]
    rfl
  · exact (mem_itemRecords hd).1

/-! ### Stores that hold a log -/

def recordEntries (d : EnergyData) : List (Bytes × StoredValue) :=
  [(getEnergyDataKey d.id, marshal d), (getEnergyByCategoryKey d.category d.id, .raw d.id),
    (getEnergyBySubmitterKey d.submitter d.id, .raw d.id)]

def batchEntry (b : BatchSubmission) : Bytes × StoredValue :=
  (getBatchSubmissionKey b.id, marshal b)

/-- The counter is absent until the first ID is drawn. -/
def counterEntry (n : ℕ) : List (Bytes × StoredValue) :=
  if n = 0 then [] else [(dataCounterKey, .raw (bigEndian 8 n))]

def contents (n : ℕ) (rs : List EnergyData) (bs : List BatchSubmission) :
    List (Bytes × StoredValue) :=
  counterEntry n ++ ((paramsKey, marshal defaultParams) ::
    (rs.flatMap recordEntries ++ bs.map batchEntry))

/-- The store holds the counter value `n`, the default parameters, the records
and the batches, and nothing else; all IDs are among the first `n`. -/
structure Represents (store : KVStore) (n : ℕ) (rs : List EnergyData)
    (bs : List BatchSubmission) : Prop where
  entries : store.entries.Perm (contents n rs bs)
  recordIDs : ∀ d ∈ rs, ∃ k, 0 < k ∧ k ≤ n ∧ d.id = energyID k
  batchIDs : ∀ b ∈ bs, ∃ k, 0 < k ∧ k ≤ n ∧ b.id = energyID k

theorem paramsKey_eq : paramsKey = 0x65 :: ascii "nergy_params" := rfl

section Membership

variable {n : ℕ} {rs : List EnergyData} {bs : List BatchSubmission} {v : StoredValue}

theorem mem_contents_dataKey (id : Bytes) :
    (getEnergyDataKey id, v) ∈ contents n rs bs ↔ ∃ d ∈ rs, d.id = id ∧ v = marshal d := by
  simp only [contents, counterEntry, recordEntries, batchEntry, List.mem_append, List.mem_cons,
    List.mem_flatMap, List.mem_map, Prod.mk.injEq]
  constructor
  · rintro (h | h | ⟨d, hd, h⟩ | ⟨b, hb, h⟩)
    · split_ifs at h <;> simp [getEnergyDataKey, energyDataKeyPrefix, dataCounterKey] at h
    · simp [getEnergyDataKey, energyDataKeyPrefix, paramsKey_eq] at h
    · refine ⟨d, hd, ?_⟩
      simpa [getEnergyDataKey, energyDataKeyPrefix, getEnergyByCategoryKey,
        energyByCategoryPrefix, getEnergyBySubmitterKey, energyBySubmitterPrefix, eq_comm] using h
    · simp [getEnergyDataKey, energyDataKeyPrefix, getBatchSubmissionKey,
        batchSubmissionKeyPrefix] at h
  · rintro ⟨d, hd, rfl, rfl⟩
    exact Or.inr (Or.inr (Or.inl ⟨d, hd, by simp⟩))

theorem mem_contents_batchKey (id : Bytes) :
    (getBatchSubmissionKey id, v) ∈ contents n rs bs ↔ ∃ b ∈ bs, b.id = id ∧ v = marshal b := by
  simp only [contents, counterEntry, recordEntries, batchEntry, List.mem_append, List.mem_cons,
    List.mem_flatMap, List.mem_map, Prod.mk.injEq]
  constructor
  · rintro (h | h | ⟨d, hd, h⟩ | ⟨b, hb, h⟩)
    · split_ifs at h <;> simp [getBatchSubmissionKey, batchSubmissionKeyPrefix, dataCounterKey] at h
    · simp [getBatchSubmissionKey, batchSubmissionKeyPrefix, paramsKey_eq] at h
    · simp [getEnergyDataKey, energyDataKeyPrefix, getEnergyByCategoryKey, getBatchSubmissionKey,
        energyByCategoryPrefix, getEnergyBySubmitterKey, energyBySubmitterPrefix,
        batchSubmissionKeyPrefix] at h
    · exact ⟨b, hb, by simpa using h.1, h.2.symm⟩
  · rintro ⟨b, hb, rfl, rfl⟩
    exact Or.inr (Or.inr (Or.inr ⟨b, hb, rfl, rfl⟩))

theorem recordEntries_fresh {d : EnergyData} (hid : (0 : Byte) ∉ d.id)
    (hrs : ∀ d' ∈ rs, (0 : Byte) ∉ d'.id ∧ d'.id ≠ d.id) :
    ∀ e ∈ recordEntries d, e.1 ∉ (contents n rs bs).map Prod.fst := by
  intro e he hmem
  obtain ⟨⟨k, w⟩, hkw, rfl⟩ := List.mem_map.mp hmem
  simp only [contents, counterEntry, batchEntry, List.mem_append, List.mem_cons,
    List.mem_flatMap, List.mem_map, Prod.mk.injEq] at hkw
  simp only [recordEntries, List.mem_cons, List.not_mem_nil, or_false] at he
  rcases hkw with h | h | ⟨d', hd', h⟩ | ⟨b, hb, h⟩
  · split_ifs at h <;> rcases he with rfl | rfl | rfl <;>
      simp [getEnergyDataKey, energyDataKeyPrefix, dataCounterKey, getEnergyByCategoryKey,
        energyByCategoryPrefix, getEnergyBySubmitterKey, energyBySubmitterPrefix] at h
  · rcases he with rfl | rfl | rfl <;>
      simp [getEnergyDataKey, energyDataKeyPrefix, paramsKey_eq, getEnergyByCategoryKey,
        energyByCategoryPrefix, getEnergyBySubmitterKey, energyBySubmitterPrefix] at h
  · -- A record of the log: equal index keys have equal identifiers.
    obtain ⟨hzero, hne⟩ := hrs d' hd'
    have hcat := getEnergyByCategoryKey_inj (c := d.category) (d := d'.category) hid hzero
    have hsub := getEnergyBySubmitterKey_inj (s := d.submitter) (t := d'.submitter) hid hzero
    rcases he with rfl | rfl | rfl <;>
      simp only [recordEntries, List.mem_cons, Prod.mk.injEq, List.not_mem_nil, or_false] at h <;>
      rcases h with h | h | h <;>
      first
        | exact hne (getEnergyDataKey_inj.mp h.1).symm
        | exact hne (hcat.mp h.1).2.symm
        | exact hne (hsub.mp h.1).2.symm
        | simp [getEnergyDataKey, energyDataKeyPrefix, getEnergyByCategoryKey,
            energyByCategoryPrefix, getEnergyBySubmitterKey, energyBySubmitterPrefix] at h
  · rcases he with rfl | rfl | rfl <;>
      simp [getEnergyDataKey, energyDataKeyPrefix, getBatchSubmissionKey, batchSubmissionKeyPrefix,
        getEnergyByCategoryKey, energyByCategoryPrefix, getEnergyBySubmitterKey,
        energyBySubmitterPrefix] at h

theorem recordEntries_keys_nodup (d : EnergyData) : ((recordEntries d).map Prod.fst).Nodup := by
  simp [recordEntries, getEnergyDataKey, energyDataKeyPrefix, getEnergyByCategoryKey,
    energyByCategoryPrefix, getEnergyBySubmitterKey, energyBySubmitterPrefix]

end Membership

/-! ### What the keeper operations do to a represented log -/

namespace Represents

variable {store : KVStore} {n : ℕ} {rs : List EnergyData} {bs : List BatchSubmission}

theorem zero_notMem_id (h : Represents store n rs bs) {d : EnergyData} (hd : d ∈ rs) :
    (0 : Byte) ∉ d.id := by
  obtain ⟨k, -, -, hk⟩ := h.recordIDs d hd
  exact hk ▸ zero_notMem_energyID k

theorem counter (h : Represents store n rs bs) :
    store.get dataCounterKey = if n = 0 then none else some (.raw (bigEndian 8 n)) := by
  split_ifs with hn
  · rw [OrderedStore.get_eq_none_iff_of_perm h.entries]
    simp [contents, counterEntry, recordEntries, batchEntry, hn, dataCounterKey, paramsKey_eq,
      getEnergyDataKey, energyDataKeyPrefix, getEnergyByCategoryKey, energyByCategoryPrefix,
      getEnergyBySubmitterKey, energyBySubmitterPrefix, getBatchSubmissionKey,
      batchSubmissionKeyPrefix]
  · rw [OrderedStore.get_eq_some_iff_of_perm h.entries]
    simp [contents, counterEntry, hn]

theorem dataCounter (h : Represents store n rs bs) (hn : n < 2 ^ 64) :
    dataCounter store = UInt64.ofNat n := by
  rw [Energy.dataCounter, h.counter]
  split_ifs with h0
  · subst h0
    rfl
  · have hbytes : bigEndian 8 n = uint64Bytes (UInt64.ofNat n) := by
      rw [uint64Bytes, UInt64.toNat_ofNat_of_lt' hn]
    simp [hbytes]

theorem generateID (h : Represents store n rs bs) (hn : n + 1 < 2 ^ 64) :
    Represents (generateID store).1 (n + 1) rs bs ∧
      (Energy.generateID store).2 = energyID (n + 1) := by
  have hseq : Energy.dataCounter store + 1 = UInt64.ofNat (n + 1) := by
    rw [h.dataCounter (by omega)]
    simp
  have hval : (UInt64.ofNat (n + 1)).toNat = n + 1 := UInt64.toNat_ofNat_of_lt' hn
  constructor
  · refine ⟨?_, fun d hd => ?_, fun b hb => ?_⟩
    · simp only [Energy.generateID, hseq, uint64Bytes, hval]
      by_cases h0 : n = 0
      · have hc := h.counter
        rw [if_pos h0, OrderedStore.get_eq_none_iff_of_perm h.entries] at hc
        simpa [contents, counterEntry, h0] using OrderedStore.Perm.set_fresh h.entries hc _
      · have he := h.entries
        simp only [contents, counterEntry, if_neg h0, List.cons_append, List.nil_append] at he
        simpa [contents, counterEntry] using OrderedStore.Perm.set_replace he _
    · obtain ⟨k, hk0, hkn, hk⟩ := h.recordIDs d hd
      exact ⟨k, hk0, by omega, hk⟩
    · obtain ⟨k, hk0, hkn, hk⟩ := h.batchIDs b hb
      exact ⟨k, hk0, by omega, hk⟩
  · simp only [Energy.generateID, hseq, hval]

/-- Storing a record whose ID is drawn but not used by a record. -/
theorem submitEnergyData (h : Represents store n rs bs) {d : EnergyData} {k : ℕ} (hk0 : 0 < k)
    (hkn : k ≤ n) (hid : d.id = energyID k) (hnew : ∀ d' ∈ rs, d'.id ≠ d.id) :
    Represents (submitEnergyData store d) n (rs ++ [d]) bs := by
  refine ⟨?_, fun d' hd' => ?_, h.batchIDs⟩
  · have hzero : (0 : Byte) ∉ d.id := hid ▸ zero_notMem_energyID k
    have hfresh : ∀ e ∈ recordEntries d, e.1 ∉ (contents n rs bs).map Prod.fst :=
      recordEntries_fresh hzero fun d' hd' => ⟨h.zero_notMem_id hd', hnew d' hd'⟩
    refine (OrderedStore.Perm.foldl_set_fresh h.entries (recordEntries_keys_nodup d)
      hfresh).trans ?_
    rw [← Multiset.coe_eq_coe]
    simp only [contents, List.flatMap_append, List.flatMap_cons, List.flatMap_nil,
      List.append_nil, ← Multiset.coe_add, ← Multiset.cons_coe, ← Multiset.singleton_add]
    abel
  · rcases List.mem_append.mp hd' with hd' | hd'
    · exact h.recordIDs d' hd'
    · rw [List.mem_singleton.mp hd']
      exact ⟨k, hk0, hkn, hid⟩

theorem submitBatch (h : Represents store n rs bs) {b : BatchSubmission} {k : ℕ} (hk0 : 0 < k)
    (hkn : k ≤ n) (hid : b.id = energyID k) (hnew : ∀ b' ∈ bs, b'.id ≠ b.id) :
    Represents (submitBatch store b) n rs (bs ++ [b]) := by
  refine ⟨?_, h.recordIDs, fun b' hb' => ?_⟩
  · have hfresh : getBatchSubmissionKey b.id ∉ (contents n rs bs).map Prod.fst := by
      intro hmem
      obtain ⟨⟨k', w⟩, hkw, rfl⟩ := List.mem_map.mp hmem
      obtain ⟨b', hb', hne, -⟩ := (mem_contents_batchKey _).mp hkw
      exact hnew b' hb' hne
    refine (OrderedStore.Perm.set_fresh h.entries hfresh _).trans ?_
    rw [← Multiset.coe_eq_coe]
    simp only [contents, batchEntry, List.map_append, List.map_cons, List.map_nil,
      ← Multiset.coe_add, ← Multiset.cons_coe, ← Multiset.singleton_add, Multiset.coe_nil, add_zero]
    abel
  · rcases List.mem_append.mp hb' with hb' | hb'
    · exact h.batchIDs b' hb'
    · rw [List.mem_singleton.mp hb']
      exact ⟨k, hk0, hkn, hid⟩

end Represents
end EnergyChain.Energy
