import EnergyChain.Energy.GenesisRestart

/-!
# x/energy: the effect of a batch

A batch is rejected before anything is written, or it writes the counter, its
own entry and three entries for each item. Items draw the IDs after the one of
the batch, in their order. None of this depends on what the store held before.
-/

namespace EnergyChain.Energy

variable (keccak256 : Bytes → Bytes)

/-- The record of an item stored under the ID with number `seq`. -/
def itemRecord (ctx : Context) (msg : MsgBatchSubmit) (seq : ℕ) (item : BatchItem) : EnergyData :=
  { id := energyID seq, category := msg.category, submitter := msg.submitter
    dataHash := item.dataHash, metadata := item.metadata
    blockHeight := ctx.blockHeight, timestamp := ctx.blockTime }

/-- The keys a batch may write when `m` IDs were drawn before it: the counter,
the key of the batch, and for each item its primary key and its index keys. -/
def batchKeys (m : ℕ) (msg : MsgBatchSubmit) : List Bytes :=
  dataCounterKey :: getBatchSubmissionKey (energyID (m + 1)) ::
    (List.range' (m + 2) msg.items.length).flatMap fun seq =>
      [getEnergyDataKey (energyID seq), getEnergyByCategoryKey msg.category (energyID seq),
        getEnergyBySubmitterKey msg.submitter (energyID seq)]

/-- What an accepted batch does to a store whose counter is `m`. -/
structure BatchEffect (ctx : Context) (msg : MsgBatchSubmit) (m : ℕ) (store store' : KVStore) :
    Prop where
  counter : (dataCounter store').toNat = m + msg.items.length + 1
  batch : getBatch store' (energyID (m + 1)) = some
    { id := energyID (m + 1), submitter := msg.submitter, category := msg.category
      dataCount := UInt32.ofNat msg.items.length, merkleRoot := msg.merkleRoot
      timestamp := ctx.blockTime }
  item : ∀ i (hi : i < msg.items.length), getEnergyData store' (energyID (m + 2 + i)) =
    some (itemRecord ctx msg (m + 2 + i) msg.items[i])
  frame : ∀ k, k ∉ batchKeys m msg → store'.get k = store.get k

/-! ### Acceptance -/

theorem batchSubmit_accepts_iff (store : KVStore) (ctx : Context) {msg : MsgBatchSubmit}
    (hsize : msg.items.length < 2 ^ 32) :
    (deliver keccak256).Accepts store (ctx, .batchSubmit msg) ↔
      isAllowedSubmitter store msg.submitter = true ∧ 1 ≤ msg.items.length ∧
      msg.items.length ≤ (getParams store).maxBatchSize.toNat ∧
      ∃ root,
        computeMerkleRoot keccak256 (msg.items.map fun item => keccak256 item.dataHash) =
          some root ∧
        trimPrefix (toLower msg.merkleRoot) (ascii "0x") = hexEncode root := by
  have hcount : (UInt32.ofNat msg.items.length).toNat = msg.items.length :=
    UInt32.toNat_ofNat_of_lt' hsize
  constructor
  · rintro ⟨r, hr⟩
    rcases batchSubmitMsg_cases keccak256 ctx store msg with ⟨e, he⟩ | ⟨hallowed, hmax, hroot, -⟩
    · simp [deliver, he] at hr
    · obtain ⟨hne, hverified⟩ := (verifyMerkleRoot_ok_iff keccak256 _ _).mp hroot
      rw [UInt32.le_iff_toNat_le, hcount] at hmax
      exact ⟨hallowed, List.length_pos_iff.mpr hne, hmax, hverified⟩
  · rintro ⟨hallowed, hpos, hmax, hverified⟩
    have hroot : verifyMerkleRoot keccak256 msg.items msg.merkleRoot = .ok () :=
      (verifyMerkleRoot_ok_iff keccak256 _ _).mpr ⟨List.length_pos_iff.mp hpos, hverified⟩
    have hnot : ¬ UInt32.ofNat msg.items.length > (getParams store).maxBatchSize := by
      rw [gt_iff_lt, UInt32.lt_iff_toNat_lt, hcount]
      omega
    simp only [Handler.Accepts, deliver, batchSubmitMsg, hallowed, hnot, hroot]
    exact ⟨_, rfl⟩

/-! ### The loop over the items -/

section Items

variable (ctx : Context) (msg : MsgBatchSubmit)

theorem mem_itemRecords_iff {n : ℕ} {items : List BatchItem} {d : EnergyData} :
    d ∈ itemRecords ctx msg n items ↔
      ∃ i, ∃ hi : i < items.length, d = itemRecord ctx msg (n + 1 + i) items[i] := by
  induction items generalizing n with
  | nil => simp [itemRecords]
  | cons item rest ih =>
    rw [itemRecords, List.mem_cons, ih]
    constructor
    · rintro (rfl | ⟨i, hi, rfl⟩)
      · exact ⟨0, by simp, rfl⟩
      · refine ⟨i + 1, by simpa using hi, ?_⟩
        rw [show n + 1 + (i + 1) = n + 1 + 1 + i by omega]
        rfl
    · rintro ⟨_ | i, hi, rfl⟩
      · exact Or.inl rfl
      · refine Or.inr ⟨i, by simpa using hi, ?_⟩
        rw [show n + 1 + (i + 1) = n + 1 + 1 + i by omega]
        rfl

theorem dataCounter_submitItems (items : List BatchItem) (store : KVStore) :
    dataCounter (items.foldl (fun store item => (submitItem ctx msg store item).1) store) =
      dataCounter store + UInt64.ofNat items.length := by
  induction items generalizing store with
  | nil => simp
  | cons item rest ih =>
    have hitem : dataCounter (submitItem ctx msg store item).1 = dataCounter store + 1 := by
      rw [← dataCounter_generateID]
      exact dataCounter_congr
        (get_submitEnergyData_of_head _ _ (by decide) (by decide) (by decide))
    rw [List.foldl_cons, ih, hitem, List.length_cons, UInt64.ofNat_add, UInt64.add_assoc,
      UInt64.add_comm 1]
    rfl

/-- Under every key but the counter, the loop leaves what writing the entries of
the item records leaves. -/
theorem get_submitItems (items : List BatchItem) {store : KVStore} {n : ℕ}
    (hcounter : dataCounter store = UInt64.ofNat n) (hn : n + items.length < 2 ^ 64) {k : Bytes}
    (hk : k ≠ dataCounterKey) :
    (items.foldl (fun store item => (submitItem ctx msg store item).1) store).get k =
      (store.setAll ((itemRecords ctx msg n items).flatMap recordEntries)).get k := by
  induction items generalizing store n with
  | nil => rfl
  | cons item rest ih =>
    simp only [List.length_cons] at hn
    have hseq : dataCounter store + 1 = UInt64.ofNat (n + 1) := by
      rw [hcounter]
      simp
    have hitem : (submitItem ctx msg store item).1 =
        (generateID store).1.setAll (recordEntries (itemRecord ctx msg (n + 1) item)) := by
      have hid : (generateID store).2 = energyID (n + 1) := by
        simp only [generateID, hseq, UInt64.toNat_ofNat_of_lt' (show n + 1 < 2 ^ 64 by omega)]
      simp only [submitItem, hid]
      rfl
    have hnext : dataCounter (submitItem ctx msg store item).1 = UInt64.ofNat (n + 1) := by
      have h := dataCounter_submitItems ctx msg [item] store
      simpa [hcounter] using h
    rw [List.foldl_cons, ih hnext (by omega), hitem, itemRecords, List.flatMap_cons,
      OrderedStore.setAll_append]
    refine OrderedStore.get_setAll_congr (OrderedStore.get_setAll_congr ?_ _) _
    exact OrderedStore.get_set_of_ne _ hk _

theorem get_submitItems_dataKey {items : List BatchItem} {store : KVStore} {n i : ℕ}
    (hcounter : dataCounter store = UInt64.ofNat n) (hn : n + items.length < 2 ^ 64)
    (hi : i < items.length) :
    (items.foldl (fun store item => (submitItem ctx msg store item).1) store).get
        (getEnergyDataKey (energyID (n + 1 + i))) =
      some (marshal (itemRecord ctx msg (n + 1 + i) items[i])) := by
  have hmem : itemRecord ctx msg (n + 1 + i) items[i] ∈ itemRecords ctx msg n items :=
    (mem_itemRecords_iff ctx msg).mpr ⟨i, hi, rfl⟩
  rw [get_submitItems ctx msg items hcounter hn
    (ne_of_head (b := 0x05) (by simp [head_key _ (energyID (n + 1 + i))]) rfl)]
  apply OrderedStore.get_setAll_of_mem
  · exact List.mem_map.mpr ⟨_, List.mem_flatMap.mpr ⟨_, hmem, List.mem_cons_self⟩, rfl⟩
  · intro e he hkey
    obtain ⟨d, hd, he⟩ := List.mem_flatMap.mp he
    obtain ⟨j, hj, rfl⟩ := (mem_itemRecords_iff ctx msg).mp hd
    simp only [recordEntries, List.mem_cons, List.not_mem_nil, or_false] at he
    rcases he with rfl | rfl | rfl
    · -- Equal primary keys are those of one item, since the numbers differ.
      have hij : n + 1 + j = n + 1 + i := energyID_injective (getEnergyDataKey_inj.mp hkey)
      obtain rfl : j = i := by omega
      rfl
    · simp [getEnergyByCategoryKey, energyByCategoryPrefix, getEnergyDataKey,
        energyDataKeyPrefix] at hkey
    · simp [getEnergyBySubmitterKey, energyBySubmitterPrefix, getEnergyDataKey,
        energyDataKeyPrefix] at hkey

theorem get_submitItems_of_notMem {items : List BatchItem} {store : KVStore} {n : ℕ}
    (hcounter : dataCounter store = UInt64.ofNat n) (hn : n + items.length < 2 ^ 64) {k : Bytes}
    (hk : k ≠ dataCounterKey)
    (hkeys : ∀ i, i < items.length → k ≠ getEnergyDataKey (energyID (n + 1 + i)) ∧
      k ≠ getEnergyByCategoryKey msg.category (energyID (n + 1 + i)) ∧
      k ≠ getEnergyBySubmitterKey msg.submitter (energyID (n + 1 + i))) :
    (items.foldl (fun store item => (submitItem ctx msg store item).1) store).get k =
      store.get k := by
  rw [get_submitItems ctx msg items hcounter hn hk]
  apply OrderedStore.get_setAll_of_notMem
  intro hmem
  obtain ⟨e, he, rfl⟩ := List.mem_map.mp hmem
  obtain ⟨d, hd, he⟩ := List.mem_flatMap.mp he
  obtain ⟨i, hi, rfl⟩ := (mem_itemRecords_iff ctx msg).mp hd
  obtain ⟨hdata, hcategory, hsubmitter⟩ := hkeys i hi
  simp only [recordEntries, List.mem_cons, List.not_mem_nil, or_false] at he
  rcases he with rfl | rfl | rfl
  · exact hdata rfl
  · exact hcategory rfl
  · exact hsubmitter rfl

end Items

/-! ### The whole message -/

theorem batchEffect_of_accepts {store : KVStore} {ctx : Context} {msg : MsgBatchSubmit}
    (hvalid : (Msg.batchSubmit msg).ValidStrings)
    (hacc : (deliver keccak256).Accepts store (ctx, .batchSubmit msg))
    (hm : (dataCounter store).toNat + msg.items.length + 1 < 2 ^ 64) :
    BatchEffect ctx msg (dataCounter store).toNat store
      (deliver keccak256 store (ctx, .batchSubmit msg)).1 := by
  obtain ⟨hsubmitter, hcategory, hmerkleRoot, hitems⟩ := hvalid
  rcases batchSubmitMsg_cases keccak256 ctx store msg with ⟨e, he⟩ | ⟨-, -, -, hok⟩
  · obtain ⟨r, hr⟩ := hacc
    simp [deliver, he] at hr
  generalize hm' : (dataCounter store).toNat = m at hm ⊢
  have hcounter : dataCounter store = UInt64.ofNat m := by simp [← hm']
  have hseq : dataCounter (generateID store).1 = UInt64.ofNat (m + 1) := by simp [hcounter]
  have hid : (generateID store).2 = energyID (m + 1) := by
    simp only [generateID, hcounter]
    rw [← UInt64.toNat_ofNat_of_lt' (show m + 1 < 2 ^ 64 by omega)]
    simp
  have hbound : m + 1 + msg.items.length < 2 ^ 64 := by omega
  simp only [deliver, hok, hid]
  refine ⟨?_, ?_, ?_, ?_⟩
  · rw [dataCounter_congr (get_submitBatch_of_head _ _ (by decide)), submitItems,
      dataCounter_submitItems, hseq, ← UInt64.ofNat_add, UInt64.toNat_ofNat_of_lt' hbound]
    omega
  · simp [getBatch, submitBatch, BatchSubmission.coerced_of_valid, *, validUTF8_energyID]
  · intro i hi
    obtain ⟨hhash, hmetadata⟩ := hitems _ (List.getElem_mem hi)
    have hget := get_submitItems_dataKey ctx msg hseq hbound hi
    rw [show m + 1 + 1 + i = m + 2 + i by omega] at hget
    rw [getEnergyData_congr (get_submitBatch_of_head _ _ (by simp [head_key _ (energyID 0)])),
      submitItems, getEnergyData, hget]
    simp [EnergyData.coerced_of_valid, itemRecord, *, validUTF8_energyID]
  · intro k hk
    simp only [batchKeys, List.mem_cons, List.mem_flatMap, List.mem_range'_1, not_or, not_exists,
      not_and, List.not_mem_nil, or_false] at hk
    obtain ⟨hkcounter, hkbatch, hkitems⟩ := hk
    rw [submitBatch, OrderedStore.get_set_of_ne _ hkbatch, submitItems,
      get_submitItems_of_notMem ctx msg hseq hbound hkcounter
        (fun i hi => by
          have hkey := hkitems (m + 1 + 1 + i) ⟨by omega, by omega⟩
          exact ⟨hkey.1, hkey.2.1, hkey.2.2⟩)]
    exact OrderedStore.get_set_of_ne _ hkcounter _

/-- A batch is accepted under three conditions and then has its exact effect;
otherwise the store stays as it is. This holds of every store, whatever its
genesis and its history. -/
theorem batchSubmit_all_or_nothing (store : KVStore) (ctx : Context) (msg : MsgBatchSubmit)
    (hvalid : (Msg.batchSubmit msg).ValidStrings) (hsize : msg.items.length < 2 ^ 32) :
    ((deliver keccak256).Accepts store (ctx, .batchSubmit msg) ↔
      isAllowedSubmitter store msg.submitter = true ∧ 1 ≤ msg.items.length ∧
      msg.items.length ≤ (getParams store).maxBatchSize.toNat ∧
      ∃ root,
        computeMerkleRoot keccak256 (msg.items.map fun item => keccak256 item.dataHash) =
          some root ∧
        trimPrefix (toLower msg.merkleRoot) (ascii "0x") = hexEncode root) ∧
    ((deliver keccak256).Accepts store (ctx, .batchSubmit msg) →
      (dataCounter store).toNat + msg.items.length + 1 < 2 ^ 64 →
        BatchEffect ctx msg (dataCounter store).toNat store
          (deliver keccak256 store (ctx, .batchSubmit msg)).1) ∧
    (¬ (deliver keccak256).Accepts store (ctx, .batchSubmit msg) →
      (deliver keccak256 store (ctx, .batchSubmit msg)).1 = store) :=
  ⟨batchSubmit_accepts_iff keccak256 store ctx hsize,
    fun hacc hm => batchEffect_of_accepts keccak256 hvalid hacc hm,
    fun hrej => deliver_reject keccak256 hrej⟩

/-- The batch of the sample run, after the single submission. -/
theorem batchSubmit_all_or_nothing_sampleRun :
    ∃ ctx msg, sampleRun[1]? = some (ctx, Msg.batchSubmit msg) ∧
      BatchEffect ctx msg 1 ((deliver keccakOfPair).run genesisStore (sampleRun.take 1))
        ((deliver keccakOfPair).run genesisStore (sampleRun.take 2)) := by
  let store := (deliver keccakOfPair).run genesisStore (sampleRun.take 1)
  refine ⟨_, _, rfl, ?_⟩
  exact (batchSubmit_all_or_nothing keccakOfPair store _ _ (by decide +kernel) (by decide)).2.1
    (by decide +kernel) (by decide +kernel)

end EnergyChain.Energy
