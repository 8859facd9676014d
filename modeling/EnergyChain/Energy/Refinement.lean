import EnergyChain.Energy.History

/-!
# x/energy: the message server refines the log

Each handler either rejects and leaves the store alone or does one append to
the log; queries are read off the represented lists. Along a run the log is
the list of accepted messages.
-/

namespace EnergyChain.Energy

/-! ### Queries -/

namespace Represents

variable {store : KVStore} {n : ℕ} {rs : List EnergyData} {bs : List BatchSubmission}

theorem getParams (h : Represents store n rs bs) : getParams store = defaultParams := by
  have hget : store.get paramsKey = some (marshal defaultParams) := by
    rw [OrderedStore.get_eq_some_iff_of_perm h.entries]
    simp [contents]
  rw [Energy.getParams, hget]
  rfl

theorem isAllowedSubmitter (h : Represents store n rs bs) (address : Bytes) :
    isAllowedSubmitter store address = true := by
  simp [Energy.isAllowedSubmitter, h.getParams, defaultParams]

theorem getEnergyData_eq_some (h : Represents store n rs bs) {id : Bytes} {d : EnergyData} :
    getEnergyData store id = some d ↔ ∃ d' ∈ rs, d'.id = id ∧ d'.coerced = d := by
  have hget := fun v => (OrderedStore.get_eq_some_iff_of_perm h.entries (v := v)).trans
    (mem_contents_dataKey id)
  unfold getEnergyData
  constructor
  · intro hd
    cases hv : store.get (getEnergyDataKey id) with
    | none => simp [hv] at hd
    | some v =>
      obtain ⟨d', hd', hid, rfl⟩ := (hget v).mp hv
      refine ⟨d', hd', hid, ?_⟩
      simpa [hv] using hd
  · rintro ⟨d', hd', hid, rfl⟩
    simp [(hget (marshal d')).mpr ⟨d', hd', hid, rfl⟩]

theorem getBatch_eq_some (h : Represents store n rs bs) {id : Bytes} {b : BatchSubmission} :
    getBatch store id = some b ↔ ∃ b' ∈ bs, b'.id = id ∧ b'.coerced = b := by
  have hget := fun v => (OrderedStore.get_eq_some_iff_of_perm h.entries (v := v)).trans
    (mem_contents_batchKey id)
  unfold getBatch
  constructor
  · intro hb
    cases hv : store.get (getBatchSubmissionKey id) with
    | none => simp [hv] at hb
    | some v =>
      obtain ⟨b', hb', hid, rfl⟩ := (hget v).mp hv
      refine ⟨b', hb', hid, ?_⟩
      simpa [hv] using hb
  · rintro ⟨b', hb', hid, rfl⟩
    simp [(hget (marshal b')).mpr ⟨b', hb', hid, rfl⟩]

theorem filter_contents (p : Bytes → Bool) (hcounter : p dataCounterKey = false)
    (hparams : p paramsKey = false) :
    ((contents n rs bs).filter fun e => p e.1) =
      (rs.flatMap fun d => (recordEntries d).filter fun e => p e.1) ++
        (bs.filter fun b => p (getBatchSubmissionKey b.id)).map batchEntry := by
  have hnone : ((counterEntry n).filter fun e => p e.1) = [] := by
    unfold counterEntry
    split_ifs <;> simp [hcounter]
  rw [contents, List.filter_append, hnone, List.filter_cons_of_neg (by simp [hparams]),
    List.filter_append, List.filter_flatMap, List.filter_map]
  rfl

theorem filter_contents_data :
    ((contents n rs bs).filter fun e => energyDataKeyPrefix.isPrefixOf e.1) =
      rs.map fun d => (getEnergyDataKey d.id, marshal d) := by
  rw [filter_contents _ (by decide) (by decide)]
  have hbs : (bs.filter fun b => energyDataKeyPrefix.isPrefixOf (getBatchSubmissionKey b.id)) = [] :=
    List.filter_eq_nil_iff.mpr fun b _ => by
      simp [energyDataKeyPrefix, getBatchSubmissionKey, batchSubmissionKeyPrefix, List.isPrefixOf]
  rw [hbs, List.map_nil, List.append_nil, List.map_eq_flatMap]
  apply List.flatMap_congr
  intro d _
  simp [recordEntries, energyDataKeyPrefix, getEnergyDataKey, getEnergyByCategoryKey,
    energyByCategoryPrefix, getEnergyBySubmitterKey, energyBySubmitterPrefix, List.isPrefixOf]

theorem getAllData_perm (h : Represents store n rs bs) :
    (getAllData store).Perm (rs.map EnergyData.coerced) := by
  have hperm := OrderedStore.prefixIterator_perm h.entries energyDataKeyPrefix
  rw [filter_contents_data] at hperm
  refine (hperm.filterMap _).trans ?_
  simp [List.filterMap_map]

theorem filter_contents_submitter (hids : ∀ d ∈ rs, (0 : Byte) ∉ d.id)
    (hsub : ∀ d ∈ rs, (0 : Byte) ∉ d.submitter) (s : Bytes) :
    ((contents n rs bs).filter fun e => (getEnergyBySubmitterPrefixKey s).isPrefixOf e.1) =
      (rs.filter fun d => decide (d.submitter = s)).map fun d =>
        (getEnergyBySubmitterKey d.submitter d.id, .raw d.id) := by
  rw [filter_contents _ (by simp [getEnergyBySubmitterPrefixKey, energyBySubmitterPrefix,
    dataCounterKey, List.isPrefixOf]) (by simp [getEnergyBySubmitterPrefixKey,
    energyBySubmitterPrefix, paramsKey_eq, List.isPrefixOf])]
  have hbs : (bs.filter fun b =>
      (getEnergyBySubmitterPrefixKey s).isPrefixOf (getBatchSubmissionKey b.id)) = [] :=
    List.filter_eq_nil_iff.mpr fun b _ => by
      simp [getEnergyBySubmitterPrefixKey, energyBySubmitterPrefix, getBatchSubmissionKey,
        batchSubmissionKeyPrefix, List.isPrefixOf]
  rw [hbs, List.map_nil, List.append_nil]
  induction rs with
  | nil => rfl
  | cons d rs ih =>
    -- The prefix is closed by the separator, which the key has once.
    have hkey : (getEnergyBySubmitterPrefixKey s).isPrefixOf
        (getEnergyBySubmitterKey d.submitter d.id) = decide (d.submitter = s) := by
      rw [Bool.eq_iff_iff, List.isPrefixOf_iff_prefix, decide_eq_true_iff, eq_comm,
        ← append_sep_isPrefix (hsub d List.mem_cons_self) (hids d List.mem_cons_self)]
      simp [getEnergyBySubmitterPrefixKey, getEnergyBySubmitterKey, energyBySubmitterPrefix]
    have hentries : ((recordEntries d).filter fun e =>
        (getEnergyBySubmitterPrefixKey s).isPrefixOf e.1) =
        if d.submitter = s then [(getEnergyBySubmitterKey d.submitter d.id, .raw d.id)] else [] := by
      have hdata : (getEnergyBySubmitterPrefixKey s).isPrefixOf (getEnergyDataKey d.id) = false := by
        simp [getEnergyBySubmitterPrefixKey, energyBySubmitterPrefix, getEnergyDataKey,
          energyDataKeyPrefix, List.isPrefixOf]
      have hcat : (getEnergyBySubmitterPrefixKey s).isPrefixOf
          (getEnergyByCategoryKey d.category d.id) = false := by
        simp [getEnergyBySubmitterPrefixKey, energyBySubmitterPrefix, getEnergyByCategoryKey,
          energyByCategoryPrefix, List.isPrefixOf]
      simp only [recordEntries, List.filter_cons, List.filter_nil, hdata, hcat, hkey]
      by_cases hs : d.submitter = s <;> simp [hs]
    rw [List.flatMap_cons, hentries, ih (fun d hd => hids d (List.mem_cons_of_mem _ hd))
      (fun d hd => hsub d (List.mem_cons_of_mem _ hd))]
    by_cases hs : d.submitter = s <;> simp [hs]

theorem getEnergyData_of_mem (h : Represents store n rs bs) {d : EnergyData} (hd : d ∈ rs) :
    getEnergyData store d.id = some d.coerced := h.getEnergyData_eq_some.mpr ⟨d, hd, rfl, rfl⟩

theorem getEnergyDataBySubmitter_perm (h : Represents store n rs bs)
    (hsub : ∀ d ∈ rs, (0 : Byte) ∉ d.submitter) (s : Bytes) :
    (getEnergyDataBySubmitter store s).Perm
      ((rs.filter fun d => decide (d.submitter = s)).map EnergyData.coerced) := by
  have hperm := OrderedStore.prefixIterator_perm h.entries (getEnergyBySubmitterPrefixKey s)
  rw [filter_contents_submitter (fun d hd => h.zero_notMem_id hd) hsub] at hperm
  refine (hperm.filterMap _).trans (List.Perm.of_eq ?_)
  rw [List.filterMap_map, ← List.filterMap_eq_map]
  apply List.filterMap_congr
  intro d hd
  exact h.getEnergyData_of_mem (List.mem_filter.mp hd).1

end Represents

/-! ### Handlers -/

section Handlers

variable (keccak256 : Bytes → Bytes)

/-- What a batch submission can do: reject without a write, or pass the three
checks, draw the batch ID, store the items and then the batch. -/
theorem batchSubmitMsg_cases (ctx : Context) (store : KVStore) (msg : MsgBatchSubmit) :
    (∃ e, batchSubmitMsg keccak256 ctx store msg = (store, .error e)) ∨
    (isAllowedSubmitter store msg.submitter = true ∧
      UInt32.ofNat msg.items.length ≤ (getParams store).maxBatchSize ∧
      verifyMerkleRoot keccak256 msg.items msg.merkleRoot = .ok () ∧
      batchSubmitMsg keccak256 ctx store msg =
        (submitBatch (submitItems ctx msg (generateID store).1)
          { id := (generateID store).2, submitter := msg.submitter, category := msg.category
            dataCount := UInt32.ofNat msg.items.length, merkleRoot := msg.merkleRoot
            timestamp := ctx.blockTime },
          .ok (.batchSubmit (generateID store).2 (UInt32.ofNat msg.items.length)))) := by
  unfold batchSubmitMsg
  by_cases hallowed : isAllowedSubmitter store msg.submitter = true
  · by_cases hsize : UInt32.ofNat msg.items.length > (getParams store).maxBatchSize
    · exact Or.inl ⟨_, by simp only [hallowed, hsize]; rfl⟩
    · cases hroot : verifyMerkleRoot keccak256 msg.items msg.merkleRoot with
      | error e => exact Or.inl ⟨_, by simp only [hallowed, hsize]; rfl⟩
      | ok u =>
        refine Or.inr ⟨hallowed, UInt32.not_lt.mp hsize, rfl, ?_⟩
        simp only [hallowed, hsize]
        rfl
  · exact Or.inl ⟨_, by simp only [hallowed]; rfl⟩

theorem deliver_reject {store : KVStore} {m : Context × Msg}
    (h : ¬ (deliver keccak256).Accepts store m) : (deliver keccak256 store m).1 = store := by
  obtain ⟨ctx, msg | msg⟩ := m
  · simp only [deliver, submitEnergyDataMsg, Handler.Accepts] at h ⊢
    split_ifs with hallowed
    · rfl
    · exact absurd ⟨_, by simp only [hallowed]; rfl⟩ h
  · rcases batchSubmitMsg_cases keccak256 ctx store msg with ⟨e, he⟩ | ⟨-, -, -, hok⟩
    · simp [deliver, he]
    · exact absurd ⟨_, congrArg Prod.snd hok⟩ h

theorem verified_of_accepts {store : KVStore} {ctx : Context} {msg : MsgBatchSubmit}
    (h : (deliver keccak256).Accepts store (ctx, .batchSubmit msg)) :
    verifyMerkleRoot keccak256 msg.items msg.merkleRoot = .ok () := by
  obtain ⟨r, hr⟩ := h
  rcases batchSubmitMsg_cases keccak256 ctx store msg with ⟨e, he⟩ | ⟨-, -, hroot, -⟩
  · simp [deliver, he] at hr
  · exact hroot

theorem submitItem_represents {store : KVStore} {n : ℕ} {rs : List EnergyData}
    {bs : List BatchSubmission} (h : Represents store n rs bs) (hn : n + 1 < 2 ^ 64)
    (ctx : Context) (msg : MsgBatchSubmit) (item : BatchItem) :
    Represents (submitItem ctx msg store item).1 (n + 1) (rs ++ itemRecords ctx msg n [item]) bs ∧
      (submitItem ctx msg store item).2 = energyID (n + 1) := by
  obtain ⟨hgen, hid⟩ := h.generateID hn
  refine ⟨?_, hid⟩
  have hnew : ∀ d ∈ rs, d.id ≠ energyID (n + 1) := by
    intro d hd heq
    obtain ⟨k, -, hkn, hk⟩ := h.recordIDs d hd
    have hkeq := energyID_injective (hk.symm.trans heq)
    omega
  simp only [submitItem, hid]
  exact hgen.submitEnergyData (k := n + 1) (by omega) le_rfl rfl hnew

theorem submitItems_represents (ctx : Context) (msg : MsgBatchSubmit) (items : List BatchItem)
    {store : KVStore} {n : ℕ} {rs : List EnergyData} {bs : List BatchSubmission}
    (h : Represents store n rs bs) (hn : n + items.length < 2 ^ 64) :
    Represents (items.foldl (fun store item => (submitItem ctx msg store item).1) store)
        (n + items.length) (rs ++ itemRecords ctx msg n items) bs ∧
      itemIDs ctx msg store items = (List.range' (n + 1) items.length).map energyID := by
  induction items generalizing store n rs with
  | nil => simpa [itemRecords, itemIDs] using h
  | cons item rest ih =>
    simp only [List.length_cons] at hn ⊢
    obtain ⟨hitem, hid⟩ := submitItem_represents h (by omega) ctx msg item
    obtain ⟨hrest, hids⟩ := ih hitem (by omega)
    constructor
    · rw [show n + (rest.length + 1) = n + 1 + rest.length by omega]
      simpa [itemRecords] using hrest
    · rw [itemIDs, hid, hids, List.range'_succ, List.map_cons]

/-- An accepted message appends to the log what the log says it does. -/
theorem deliver_accept {store : KVStore} {n : ℕ} {rs : List EnergyData}
    {bs : List BatchSubmission} (h : Represents store n rs bs) {m : Context × Msg}
    (hacc : (deliver keccak256).Accepts store m) (hn : n + m.2.idCount < 2 ^ 64) :
    Represents (deliver keccak256 store m).1 (n + m.2.idCount) (rs ++ createdRecords (n, m))
        (bs ++ createdBatches (n, m)) ∧
      drawnIDs keccak256 store m = (List.range' (n + 1) m.2.idCount).map energyID := by
  unfold drawnIDs
  rw [if_pos hacc]
  obtain ⟨ctx, msg | msg⟩ := m
  · simp only [Msg.idCount] at hn ⊢
    obtain ⟨hitem, hid⟩ := submitItem_represents h hn ctx
      { submitter := msg.submitter, category := msg.category, items := [], merkleRoot := [] }
      { dataHash := msg.dataHash, metadata := msg.metadata }
    have hstore : (deliver keccak256 store (ctx, .submitEnergyData msg)).1 =
        (submitItem ctx
          { submitter := msg.submitter, category := msg.category, items := [], merkleRoot := [] }
          store { dataHash := msg.dataHash, metadata := msg.metadata }).1 := by
      simp only [deliver, submitEnergyDataMsg, h.isAllowedSubmitter]
      rfl
    have hgen := (h.generateID hn).2
    rw [hstore]
    simpa [createdRecords, createdBatches, itemRecords, hgen] using hitem
  · simp only [Msg.idCount] at hn ⊢
    rcases batchSubmitMsg_cases keccak256 ctx store msg with ⟨e, he⟩ | ⟨-, -, -, hok⟩
    · obtain ⟨r, hr⟩ := hacc
      simp [deliver, he] at hr
    obtain ⟨hgen, hid⟩ := h.generateID (by omega)
    obtain ⟨hitems, hids⟩ := submitItems_represents ctx msg msg.items hgen (by omega)
    have hnew : ∀ b ∈ bs, b.id ≠ energyID (n + 1) := by
      intro b hb heq
      obtain ⟨k, -, hkn, hk⟩ := h.batchIDs b hb
      have hkeq := energyID_injective (hk.symm.trans heq)
      omega
    have hbatch := hitems.submitBatch (k := n + 1)
      (b := { id := energyID (n + 1), submitter := msg.submitter, category := msg.category
              dataCount := UInt32.ofNat msg.items.length, merkleRoot := msg.merkleRoot
              timestamp := ctx.blockTime }) (by omega) (by omega) rfl hnew
    constructor
    · simp only [deliver, hok, hid, submitItems]
      rw [show n + (msg.items.length + 1) = n + 1 + msg.items.length by omega]
      exact hbatch
    · rw [hid, hids, List.range'_succ, List.map_cons]

end Handlers

/-! ### Runs -/

section Runs

variable (keccak256 : Bytes → Bytes)

theorem genesisStore_represents : Represents genesisStore 0 [] [] := by
  refine ⟨?_, by simp, by simp⟩
  exact OrderedStore.Perm.set_fresh (List.Perm.refl _) (by simp [OrderedStore.empty]) _

/-- The store reached by a run holds the log of the accepted messages. -/
theorem run_represents (ms : List (Context × Msg))
    (hbound : issued ((deliver keccak256).history genesisStore ms) < 2 ^ 64) :
    Represents ((deliver keccak256).run genesisStore ms)
      (issued ((deliver keccak256).history genesisStore ms))
      (loggedRecords ((deliver keccak256).history genesisStore ms))
      (loggedBatches ((deliver keccak256).history genesisStore ms)) := by
  refine (deliver keccak256).run_induction (P := fun store hist => issued hist < 2 ^ 64 →
    Represents store (issued hist) (loggedRecords hist) (loggedBatches hist)) ms ?_ ?_ ?_ hbound
  · intro _
    exact genesisStore_represents
  · intro store hist ih m _ hacc hlt
    rw [issued_append] at hlt ⊢
    rw [loggedRecords_append, loggedBatches_append]
    exact (deliver_accept keccak256 (ih (by omega)) hacc hlt).1
  · intro store hist ih m _ hrej hlt
    rw [deliver_reject keccak256 hrej]
    exact ih hlt

theorem itemIDs_length (ctx : Context) (msg : MsgBatchSubmit) (store : KVStore)
    (items : List BatchItem) : (itemIDs ctx msg store items).length = items.length := by
  induction items generalizing store with
  | nil => rfl
  | cons item rest ih => simp [itemIDs, ih]

theorem drawnIDsOfRun_length (store : KVStore) (ms : List (Context × Msg)) :
    (drawnIDsOfRun keccak256 store ms).length =
      issued ((deliver keccak256).history store ms) := by
  induction ms generalizing store with
  | nil => rfl
  | cons m ms ih =>
    rw [drawnIDsOfRun, List.length_append, ih, Handler.history]
    by_cases hacc : (deliver keccak256).Accepts store m
    · obtain ⟨ctx, msg | msg⟩ := m <;>
        simp [drawnIDs, hacc, issued, Msg.idCount, itemIDs_length]
    · simp [drawnIDs, hacc]

theorem drawnIDsOfRun_length_le (store : KVStore) (ms : List (Context × Msg)) :
    (drawnIDsOfRun keccak256 store ms).length ≤ issued ms := by
  rw [drawnIDsOfRun_length]
  exact ((((deliver keccak256).history_sublist store ms).map _).sum_le_sum
    fun _ _ => Nat.zero_le _)

theorem drawnIDsOfRun_eq {store : KVStore} {n : ℕ} {rs : List EnergyData}
    {bs : List BatchSubmission} (h : Represents store n rs bs) (ms : List (Context × Msg))
    (hbound : n + (drawnIDsOfRun keccak256 store ms).length < 2 ^ 64) :
    drawnIDsOfRun keccak256 store ms =
      (List.range' (n + 1) (drawnIDsOfRun keccak256 store ms).length).map energyID := by
  induction ms generalizing store n rs bs with
  | nil => rfl
  | cons m ms ih =>
    rw [drawnIDsOfRun, List.length_append] at hbound ⊢
    by_cases hacc : (deliver keccak256).Accepts store m
    · have hcount : (drawnIDs keccak256 store m).length = m.2.idCount := by
        obtain ⟨ctx, msg | msg⟩ := m <;> simp [drawnIDs, hacc, Msg.idCount, itemIDs_length]
      obtain ⟨hnext, hids⟩ := deliver_accept keccak256 h hacc (by omega)
      rw [hcount] at hbound ⊢
      conv_lhs => rw [hids, ih hnext (by omega)]
      rw [← List.map_append, ← List.range'_append_1]
      congr 3
      omega
    · have hnone : drawnIDs keccak256 store m = [] := by simp [drawnIDs, hacc]
      rw [hnone, deliver_reject keccak256 hacc] at hbound ⊢
      simpa using ih h (by simpa using hbound)

theorem verified_of_mem_history (store : KVStore) (ms : List (Context × Msg)) {ctx : Context}
    {msg : MsgBatchSubmit} (h : (ctx, .batchSubmit msg) ∈ (deliver keccak256).history store ms) :
    verifyMerkleRoot keccak256 msg.items msg.merkleRoot = .ok () := by
  revert ctx msg
  refine (deliver keccak256).run_induction (s := store) (P := fun _ hist =>
    ∀ {ctx msg}, (ctx, Msg.batchSubmit msg) ∈ hist →
      verifyMerkleRoot keccak256 msg.items msg.merkleRoot = .ok ()) ms ?_ ?_ ?_
  · intro ctx msg h
    cases h
  · intro s hist ih m _ hacc ctx msg h
    rcases List.mem_append.mp h with h | h
    · exact ih h
    · exact verified_of_accepts keccak256 (List.mem_singleton.mp h ▸ hacc)
  · intro s hist ih m _ _ ctx msg h
    exact ih h

end Runs
end EnergyChain.Energy
