import EnergyChain.Energy.MsgServer
import Mathlib.Algebra.Order.Floor.Div

/-!
# x/energy: the Merkle recursion ends

A round halves the number of nodes, rounded up, so a non-empty list of `n`
leaves takes `⌈log₂ n⌉` rounds. On the empty list the recursion has no base
case. `BatchSubmit` calls it behind a check of the number of items, which the
handler with its calls made visible shows to be enough.
-/

namespace EnergyChain.Energy

variable (keccak256 : Bytes → Bytes)

/-! ### Rounds -/

theorem nextLevel_length_eq_ceilDiv (leaves : List Bytes) :
    (nextLevel keccak256 leaves).length = leaves.length ⌈/⌉ 2 :=
  nextLevel_length keccak256 leaves

theorem merkleRounds_nil (rounds : ℕ) : merkleRounds keccak256 rounds [] = none := by
  induction rounds with
  | zero => rfl
  | succ rounds ih =>
    rw [merkleRounds_succ keccak256 rounds (by simp)]
    exact ih

/-! ### The calls of a batch -/

section Calls

variable {m : Type → Type} [Monad m] (call : List Bytes → m Bytes)

/-- `verifyMerkleRoot` with its call to `computeMerkleRoot` as an effect. -/
def verifyMerkleRootCalling (items : List BatchItem) (declaredRoot : Bytes) :
    m (Except Bytes Unit) :=
  if items.length = 0 then pure (.error (ascii "no items to verify"))
  else do
    let leaves := items.map fun item => keccak256 item.dataHash
    let root ← call leaves
    let computed := hexEncode root
    let normalized := trimPrefix (toLower declaredRoot) (ascii "0x")
    if computed ≠ normalized then
      pure (.error (ascii "computed root " ++ computed ++ ascii " does not match declared root " ++
        declaredRoot))
    else pure (.ok ())

/-- `BatchSubmit` with the calls it makes to `computeMerkleRoot` as effects. -/
def batchSubmitCalling (ctx : Context) (store : KVStore) (msg : MsgBatchSubmit) :
    m (KVStore × Except Bytes MsgResponse) :=
  if !isAllowedSubmitter store msg.submitter then
    pure (store, .error (notAllowed msg.submitter))
  else
    let params := getParams store
    if UInt32.ofNat msg.items.length > params.maxBatchSize then
      pure (store, .error (ascii "batch size " ++ decimal msg.items.length ++
        ascii " exceeds maximum " ++ decimal params.maxBatchSize.toNat))
    else do
      match ← verifyMerkleRootCalling keccak256 call msg.items msg.merkleRoot with
      | .error e => pure (store, .error (ascii "merkle root verification failed: " ++ e))
      | .ok () =>
        let (store, batchID) := generateID store
        let store := submitItems ctx msg store
        let batch : BatchSubmission :=
          { id := batchID, submitter := msg.submitter, category := msg.category
            dataCount := UInt32.ofNat msg.items.length, merkleRoot := msg.merkleRoot
            timestamp := ctx.blockTime }
        pure (submitBatch store batch,
          .ok (.batchSubmit batchID (UInt32.ofNat msg.items.length)))

end Calls

/-- A call that is recorded before it is answered. -/
def recordCall (answer : List Bytes → Bytes) (leaves : List Bytes) :
    StateM (List (List Bytes)) Bytes := fun calls => (answer leaves, calls ++ [leaves])

/-- The lists `BatchSubmit` calls `computeMerkleRoot` on, were `answer` what it returns. -/
def merkleCalls (answer : List Bytes → Bytes) (ctx : Context) (store : KVStore)
    (msg : MsgBatchSubmit) : List (List Bytes) :=
  ((batchSubmitCalling keccak256 (recordCall answer) ctx store msg).run []).2

/-- With the recursion for its call, the visible check is the check. -/
theorem verifyMerkleRootCalling_computeMerkleRoot (items : List BatchItem)
    (declaredRoot : Bytes) :
    verifyMerkleRootCalling keccak256 (computeMerkleRoot keccak256) items declaredRoot =
      some (verifyMerkleRoot keccak256 items declaredRoot) := by
  by_cases hitems : items = []
  · simp [verifyMerkleRootCalling, verifyMerkleRoot, hitems]
  · have hleaves : (items.map fun item => keccak256 item.dataHash) ≠ [] := by simpa using hitems
    obtain ⟨root, hroot⟩ := computeMerkleRoot_isSome keccak256 hleaves
    simp only [verifyMerkleRootCalling, verifyMerkleRoot, List.length_eq_zero_iff, hitems,
      if_false, hroot, Option.bind_eq_bind, Option.bind_some]
    split_ifs <;> rfl

/-- With the recursion for its calls, the visible handler is the handler: it always returns. -/
theorem batchSubmitCalling_computeMerkleRoot (ctx : Context) (store : KVStore)
    (msg : MsgBatchSubmit) :
    batchSubmitCalling keccak256 (computeMerkleRoot keccak256) ctx store msg =
      some (batchSubmitMsg keccak256 ctx store msg) := by
  simp only [batchSubmitCalling, batchSubmitMsg, verifyMerkleRootCalling_computeMerkleRoot,
    Option.bind_eq_bind, Option.bind_some]
  split_ifs
  · rfl
  · rfl
  · cases verifyMerkleRoot keccak256 msg.items msg.merkleRoot <;> rfl

theorem verifyMerkleRootCalling_recordCall (answer : List Bytes → Bytes) (items : List BatchItem)
    (declaredRoot : Bytes) (calls : List (List Bytes)) :
    (verifyMerkleRootCalling keccak256 (recordCall answer) items declaredRoot calls).2 =
      if items = [] then calls
      else calls ++ [items.map fun item => keccak256 item.dataHash] := by
  unfold verifyMerkleRootCalling
  simp only [List.length_eq_zero_iff]
  split_ifs with hitems
  · rfl
  · simp only [bind, StateT.bind, recordCall]
    split_ifs <;> rfl

theorem merkleCalls_subset (answer : List Bytes → Bytes) (ctx : Context) (store : KVStore)
    (msg : MsgBatchSubmit) :
    merkleCalls keccak256 answer ctx store msg ⊆
      if msg.items = [] then [] else [msg.items.map fun item => keccak256 item.dataHash] := by
  have hcheck := verifyMerkleRootCalling_recordCall keccak256 answer msg.items msg.merkleRoot []
  rw [List.nil_append] at hcheck
  rw [← hcheck]
  simp only [merkleCalls, batchSubmitCalling]
  split_ifs
  · exact List.nil_subset _
  · exact List.nil_subset _
  · -- What follows the check makes no calls.
    simp only [StateT.run, bind, StateT.bind]
    obtain ⟨result, calls⟩ :=
      verifyMerkleRootCalling keccak256 (recordCall answer) msg.items msg.merkleRoot []
    cases result <;> exact List.Subset.refl calls

theorem ne_nil_of_mem_merkleCalls {answer : List Bytes → Bytes} {ctx : Context} {store : KVStore}
    {msg : MsgBatchSubmit} {leaves : List Bytes}
    (h : leaves ∈ merkleCalls keccak256 answer ctx store msg) : leaves ≠ [] := by
  have hmem := merkleCalls_subset keccak256 answer ctx store msg h
  split_ifs at hmem with hitems
  · exact absurd hmem List.not_mem_nil
  · rw [List.mem_singleton] at hmem
    rw [hmem]
    simpa using hitems

/-- A non-empty list of leaves has its root after the logarithm of its length in rounds and
not earlier, each of which halves the level; the empty list never has one, and no batch,
whatever it holds, calls the recursion there. -/
theorem merkle_recursion_ends :
    (∀ level : List Bytes, (nextLevel keccak256 level).length = level.length ⌈/⌉ 2) ∧
    (∀ leaves : List Bytes, leaves ≠ [] →
      ∃ root, computeMerkleRoot keccak256 leaves = some root ∧
        ∀ rounds, merkleRounds keccak256 rounds leaves =
          if Nat.clog 2 leaves.length ≤ rounds then some root else none) ∧
    (∀ rounds, merkleRounds keccak256 rounds [] = none) ∧
    ∀ (ctx : Context) (store : KVStore) (msg : MsgBatchSubmit),
      batchSubmitCalling keccak256 (computeMerkleRoot keccak256) ctx store msg =
          some (batchSubmitMsg keccak256 ctx store msg) ∧
        ∀ answer, ∀ leaves ∈ merkleCalls keccak256 answer ctx store msg, leaves ≠ [] := by
  refine ⟨nextLevel_length_eq_ceilDiv keccak256, ?_, merkleRounds_nil keccak256, ?_⟩
  · intro leaves hne
    obtain ⟨root, hroot⟩ := merkleRounds_eq_ite keccak256 hne
    have hvalue := computeMerkleRoot_eq_merkleRounds keccak256 hne le_rfl
    rw [hroot, if_pos le_rfl] at hvalue
    exact ⟨root, hvalue, hroot⟩
  · intro ctx store msg
    refine ⟨batchSubmitCalling_computeMerkleRoot keccak256 ctx store msg, ?_⟩
    intro answer leaves hmem
    exact ne_nil_of_mem_merkleCalls keccak256 hmem

/-- Five leaves take three rounds. -/
theorem merkle_recursion_ends_five :
    ∃ root, merkleRounds id 3 [[1], [2], [3], [4], [5]] = some root ∧
      merkleRounds id 2 [[1], [2], [3], [4], [5]] = none := by
  obtain ⟨root, -, hroot⟩ := (merkle_recursion_ends id).2.1 [[1], [2], [3], [4], [5]] (by simp)
  have hlog : Nat.clog 2 [[1], [2], [3], [4], ([5] : Bytes)].length = 3 := by decide
  rw [hlog] at hroot
  exact ⟨root, hroot 3, hroot 2⟩

end EnergyChain.Energy
