import EnergyChain.Energy.AppendOnly

/-!
# x/energy: batches and their records

A stored batch does not list its members. They are found from its number and
its count: the batch draws the first ID and its items the following ones, and
no other message draws from that stretch.
-/

namespace EnergyChain.Energy

variable (keccak256 : Bytes → Bytes)

theorem mem_loggedBatches {hist : List (Context × Msg)} {b : BatchSubmission}
    (h : b ∈ loggedBatches hist) : ∃ n ctx msg, (n, ctx, Msg.batchSubmit msg) ∈ placed 0 hist ∧
      b = { id := energyID (n + 1), submitter := msg.submitter, category := msg.category
            dataCount := UInt32.ofNat msg.items.length, merkleRoot := msg.merkleRoot
            timestamp := ctx.blockTime } := by
  obtain ⟨⟨n, ctx, msg | msg⟩, hm, hb⟩ := List.mem_flatMap.mp h
  · cases hb
  · exact ⟨n, ctx, msg, hm, List.mem_singleton.mp hb⟩

theorem Represents.getEnergyData_items {store : KVStore} {hist : List (Context × Msg)} {N : ℕ}
    (h : Represents store N (loggedRecords hist) (loggedBatches hist)) {n : ℕ} {ctx : Context}
    {msg : MsgBatchSubmit} (hm : (n, ctx, Msg.batchSubmit msg) ∈ placed 0 hist) :
    (List.range' (n + 2) msg.items.length).map (fun i => getEnergyData store (energyID i)) =
      (itemRecords ctx msg (n + 1) msg.items).map fun d => some d.coerced := by
  have hlogged : ∀ d ∈ itemRecords ctx msg (n + 1) msg.items, d ∈ loggedRecords hist :=
    fun d hd => List.mem_flatMap.mpr ⟨_, hm, hd⟩
  have hids := itemRecords_ids ctx msg (n + 1) msg.items
  calc (List.range' (n + 2) msg.items.length).map (fun i => getEnergyData store (energyID i))
      = ((List.range' (n + 2) msg.items.length).map energyID).map (getEnergyData store) := by
        rw [List.map_map]
        rfl
    _ = (itemRecords ctx msg (n + 1) msg.items).map fun d => getEnergyData store d.id := by
        rw [← hids, List.map_map]
        rfl
    _ = (itemRecords ctx msg (n + 1) msg.items).map fun d => some d.coerced :=
        List.map_congr_left fun d hd => h.getEnergyData_of_mem (hlogged d hd)

theorem coerced_dataHashes (n : ℕ) (ctx : Context) {msg : MsgBatchSubmit}
    (hvalid : (Msg.batchSubmit msg).ValidStrings) :
    ((itemRecords ctx msg n msg.items).map EnergyData.coerced).map EnergyData.dataHash =
      msg.items.map BatchItem.dataHash := by
  have hmap : ((itemRecords ctx msg n msg.items).map EnergyData.coerced).map EnergyData.dataHash =
      ((itemRecords ctx msg n msg.items).map EnergyData.dataHash).map coerceUTF8 := by
    simp only [List.map_map]
    rfl
  rw [hmap, itemRecords_dataHashes, List.map_map]
  exact List.map_congr_left fun item hitem =>
    coerceUTF8_of_valid (hvalid.2.2.2 item hitem).1

theorem verifyMerkleRoot_coerced (n : ℕ) (ctx : Context) {msg : MsgBatchSubmit}
    (hvalid : (Msg.batchSubmit msg).ValidStrings)
    (hverified : verifyMerkleRoot keccak256 msg.items msg.merkleRoot = .ok ()) :
    verifyMerkleRoot keccak256
      (((itemRecords ctx msg n msg.items).map EnergyData.coerced).map
        fun d => { dataHash := d.dataHash, metadata := d.metadata })
      (coerceUTF8 msg.merkleRoot) = .ok () := by
  have hhashes : (((itemRecords ctx msg n msg.items).map EnergyData.coerced).map
      fun d => BatchItem.mk d.dataHash d.metadata).map BatchItem.dataHash =
      msg.items.map BatchItem.dataHash := by
    rw [List.map_map, ← coerced_dataHashes n ctx hvalid]
    rfl
  rw [verifyMerkleRoot_congr keccak256 _ hhashes, coerceUTF8_of_valid hvalid.2.2.1]
  exact hverified

/-- Two batches of the log at different places draw their IDs from disjoint stretches. -/
theorem stretches_apart {hist : List (Context × Msg)} {n n' : ℕ} {ctx ctx' : Context}
    {msg msg' : MsgBatchSubmit} (hm : (n, ctx, Msg.batchSubmit msg) ∈ placed 0 hist)
    (hm' : (n', ctx', Msg.batchSubmit msg') ∈ placed 0 hist) (hne : n' ≠ n) {i : ℕ}
    (hlo : n + 1 + 1 ≤ i) (hhi : i ≤ n + 1 + msg.items.length) :
    ¬ (n' + 1 ≤ i ∧ i ≤ n' + 1 + msg'.items.length) := by
  rcases placed_apart hm hm' with heq | hapart | hapart
  · exact absurd (Prod.mk.inj heq).1.symm hne
  · simp only [Msg.idCount] at hapart
    omega
  · simp only [Msg.idCount] at hapart
    omega

/-- Stored batches stay verifiable from stored records. -/
theorem stored_batches_verifiable (ms : List (Context × Msg))
    (hvalid : ∀ m ∈ ms, m.2.ValidStrings)
    (hsize : ∀ ctx msg, (ctx, Msg.batchSubmit msg) ∈ ms → msg.items.length < 2 ^ 32)
    (hbound : (drawnIDsOfRun keccak256 genesisStore ms).length < 2 ^ 64)
    (id : Bytes) (b : BatchSubmission)
    (hb : getBatch ((deliver keccak256).run genesisStore ms) id = some b) :
    ∃ k, id = energyID k ∧ b.id = energyID k ∧ 1 ≤ b.dataCount.toNat ∧
      (∃ records : List EnergyData,
        (List.range' (k + 1) b.dataCount.toNat).map (fun i =>
          getEnergyData ((deliver keccak256).run genesisStore ms) (energyID i)) =
            records.map some ∧
        (∀ d ∈ records, d.submitter = b.submitter ∧ d.category = b.category ∧
          d.timestamp = b.timestamp) ∧
        verifyMerkleRoot keccak256
          (records.map fun d => { dataHash := d.dataHash, metadata := d.metadata })
          b.merkleRoot = .ok ()) ∧
      ∀ k' b', getBatch ((deliver keccak256).run genesisStore ms) (energyID k') = some b' →
        k' ≠ k → ∀ i, k + 1 ≤ i → i ≤ k + b.dataCount.toNat →
          ¬ (k' ≤ i ∧ i ≤ k' + b'.dataCount.toNat) := by
  have h := run_represents_of_drawn keccak256 ms hbound
  have hmem : ∀ {n ctx msg}, (n, ctx, Msg.batchSubmit msg) ∈
      placed 0 ((deliver keccak256).history genesisStore ms) →
      (ctx, Msg.batchSubmit msg) ∈ (deliver keccak256).history genesisStore ms :=
    fun hm => mem_of_mem_placed hm
  have hms := (deliver keccak256).history_subset genesisStore ms
  have hcount : ∀ {n ctx msg}, (n, ctx, Msg.batchSubmit msg) ∈
      placed 0 ((deliver keccak256).history genesisStore ms) →
      (UInt32.ofNat msg.items.length).toNat = msg.items.length :=
    fun hm => UInt32.toNat_ofNat_of_lt' (hsize _ _ (hms (hmem hm)))
  obtain ⟨b₀, hb₀, hid, rfl⟩ := h.getBatch_eq_some.mp hb
  obtain ⟨n, ctx, msg, hplaced, rfl⟩ := mem_loggedBatches hb₀
  have hverified := verified_of_mem_history keccak256 genesisStore ms (hmem hplaced)
  have hstrings := hvalid _ (hms (hmem hplaced))
  have hne := ((verifyMerkleRoot_ok_iff keccak256 _ _).mp hverified).1
  refine ⟨n + 1, hid.symm, coerceUTF8_of_valid (validUTF8_energyID _), ?_,
    ⟨(itemRecords ctx msg (n + 1) msg.items).map EnergyData.coerced, ?_, ?_, ?_⟩, ?_⟩
  · simp only [BatchSubmission.coerced, hcount hplaced]
    exact List.length_pos_iff.mpr hne
  · simp only [BatchSubmission.coerced, hcount hplaced]
    rw [h.getEnergyData_items hplaced, List.map_map]
    rfl
  · intro d hd
    obtain ⟨d', hd', rfl⟩ := List.mem_map.mp hd
    obtain ⟨hs, hc, ht⟩ := mem_itemRecords hd'
    simp [EnergyData.coerced, BatchSubmission.coerced, hs, hc, ht]
  · exact verifyMerkleRoot_coerced keccak256 (n + 1) ctx hstrings hverified
  · intro k' b' hb' hk' i hlo hhi
    obtain ⟨b₁, hb₁, hid', rfl⟩ := h.getBatch_eq_some.mp hb'
    obtain ⟨n', ctx', msg', hplaced', rfl⟩ := mem_loggedBatches hb₁
    obtain rfl : n' + 1 = k' := energyID_injective hid'
    simp only [BatchSubmission.coerced, hcount hplaced, hcount hplaced'] at hhi ⊢
    exact stretches_apart hplaced hplaced' (by omega) hlo hhi

/-- The records under the two IDs after the batch's are what it was verified on. -/
theorem stored_batches_verifiable_sampleRun :
    ∃ records : List EnergyData,
      (List.range' 3 2).map (fun i => getEnergyData
        ((deliver keccakOfPair).run genesisStore sampleRun) (energyID i)) = records.map some ∧
      verifyMerkleRoot keccakOfPair
        (records.map fun d => { dataHash := d.dataHash, metadata := d.metadata })
        sampleBatch.merkleRoot = .ok () := by
  have hsize : ∀ m ∈ sampleRun, ∀ ctx msg, m = (ctx, Msg.batchSubmit msg) →
      msg.items.length < 2 ^ 32 := by
    simp [sampleRun]
  obtain ⟨k, hid, -, -, ⟨records, hrecords, -, hverified⟩, -⟩ :=
    stored_batches_verifiable keccakOfPair sampleRun
      (by decide +kernel)
      (fun ctx msg hm => hsize _ hm ctx msg rfl)
      (lt_of_le_of_lt (drawnIDsOfRun_length_le keccakOfPair genesisStore sampleRun) (by decide))
      (energyID 2) sampleBatch (by decide +kernel)
  obtain rfl : k = 2 := energyID_injective hid.symm
  exact ⟨records, hrecords, hverified⟩

end EnergyChain.Energy
