import EnergyChain.Energy.Types
import Mathlib.Data.Nat.Log

/-!
# x/energy: the Merkle root of a batch

Leaves are the keccak256 digests of the `DataHash` strings; a level is reduced
pairwise, with the two digests of a pair in the order of their hex text and a
last digest without partner paired with itself. The hash function is a
parameter.
-/

namespace EnergyChain.Energy

variable (keccak256 : Bytes → Bytes)

def hashPair (a b : Bytes) : Bytes :=
  if hexEncode a ≤ hexEncode b then keccak256 (a ++ b) else keccak256 (b ++ a)

/-- One round of the recursion: the `next` slice of `computeMerkleRoot`. -/
def nextLevel : List Bytes → List Bytes
  | [] => []
  | [a] => [hashPair keccak256 a a]
  | a :: b :: rest => hashPair keccak256 a b :: nextLevel rest

/-- `computeMerkleRoot` with a bound on its recursion depth; `none` when the
bound is too small. On the empty list no bound is large enough. -/
def merkleRounds : ℕ → List Bytes → Option Bytes
  | _, [leaf] => some leaf
  | 0, _ => none
  | rounds + 1, leaves => merkleRounds rounds (nextLevel keccak256 leaves)

def computeMerkleRoot (leaves : List Bytes) : Option Bytes :=
  merkleRounds keccak256 leaves.length leaves

def verifyMerkleRoot (items : List BatchItem) (declaredRoot : Bytes) : Except Bytes Unit :=
  if items.length = 0 then .error (ascii "no items to verify")
  else
    let leaves := items.map fun item => keccak256 item.dataHash
    match computeMerkleRoot keccak256 leaves with
    -- Not reached: the recursion ends on every non-empty list.
    | none => .error []
    | some root =>
      let computed := hexEncode root
      let normalized := trimPrefix (toLower declaredRoot) (ascii "0x")
      if computed ≠ normalized then
        .error (ascii "computed root " ++ computed ++ ascii " does not match declared root " ++
          declaredRoot)
      else .ok ()

/-! ### The recursion -/

theorem nextLevel_length (leaves : List Bytes) :
    (nextLevel keccak256 leaves).length = (leaves.length + 1) / 2 := by
  induction leaves using nextLevel.induct with
  | case1 => rfl
  | case2 a => simp [nextLevel]
  | case3 a b rest ih =>
    simp only [nextLevel, List.length_cons, ih]
    omega

theorem nextLevel_ne_nil {leaves : List Bytes} (hne : leaves ≠ []) :
    nextLevel keccak256 leaves ≠ [] := by
  rw [← List.length_pos_iff] at hne ⊢
  rw [nextLevel_length]
  omega

theorem clog_length_nextLevel {leaves : List Bytes} (hlen : 1 < leaves.length) :
    Nat.clog 2 leaves.length = Nat.clog 2 (nextLevel keccak256 leaves).length + 1 := by
  rw [nextLevel_length]
  exact Nat.clog_of_one_lt one_lt_two hlen

theorem merkleRounds_succ {leaves : List Bytes} (rounds : ℕ) (hlen : leaves.length ≠ 1) :
    merkleRounds keccak256 (rounds + 1) leaves =
      merkleRounds keccak256 rounds (nextLevel keccak256 leaves) := by
  match leaves with
  | [] => rfl
  | [leaf] => exact absurd rfl hlen
  | _ :: _ :: _ => rfl

/-- The recursion ends when its bound allows the logarithm of the number of leaves, with
the same root for every such bound, and not before. -/
theorem merkleRounds_eq_ite {leaves : List Bytes} (hne : leaves ≠ []) :
    ∃ root, ∀ rounds, merkleRounds keccak256 rounds leaves =
      if Nat.clog 2 leaves.length ≤ rounds then some root else none := by
  -- Along the rounds: the logarithm goes down by one with each of them.
  induction hdepth : Nat.clog 2 leaves.length generalizing leaves with
  | zero =>
    have hone : leaves.length ≤ 1 := by
      by_contra hlen
      rw [clog_length_nextLevel keccak256 (by omega)] at hdepth
      omega
    match leaves, hne with
    | [leaf], _ => exact ⟨leaf, fun rounds => by cases rounds <;> rfl⟩
    | _ :: _ :: _, _ => simp at hone
  | succ depth ih =>
    have hlen : 1 < leaves.length := by
      by_contra hle
      rw [Nat.clog_of_right_le_one (by omega)] at hdepth
      omega
    rw [clog_length_nextLevel keccak256 hlen] at hdepth
    obtain ⟨root, hroot⟩ := ih (nextLevel_ne_nil keccak256 hne) (by omega)
    refine ⟨root, fun rounds => ?_⟩
    cases rounds with
    | zero =>
      match leaves with
      | _ :: _ :: _ => rfl
    | succ rounds =>
      rw [merkleRounds_succ keccak256 rounds (by omega), hroot rounds]
      simp

theorem computeMerkleRoot_eq_merkleRounds {leaves : List Bytes} {rounds : ℕ}
    (hne : leaves ≠ []) (hrounds : Nat.clog 2 leaves.length ≤ rounds) :
    computeMerkleRoot keccak256 leaves = merkleRounds keccak256 rounds leaves := by
  obtain ⟨root, hroot⟩ := merkleRounds_eq_ite keccak256 hne
  have hlog : Nat.clog 2 leaves.length ≤ leaves.length :=
    Nat.clog_le_of_le_pow Nat.lt_two_pow_self.le
  rw [computeMerkleRoot, hroot, hroot, if_pos hlog, if_pos hrounds]

theorem computeMerkleRoot_isSome {leaves : List Bytes} (hne : leaves ≠ []) :
    ∃ root, computeMerkleRoot keccak256 leaves = some root := by
  obtain ⟨root, hroot⟩ := merkleRounds_eq_ite keccak256 hne
  rw [computeMerkleRoot_eq_merkleRounds keccak256 hne le_rfl, hroot, if_pos le_rfl]
  exact ⟨root, rfl⟩

/-- What acceptance means: there are items, and the declared root without case
and prefix is the hex text of the computed one. -/
theorem verifyMerkleRoot_ok_iff (items : List BatchItem) (declaredRoot : Bytes) :
    verifyMerkleRoot keccak256 items declaredRoot = .ok () ↔
      items ≠ [] ∧ ∃ root,
        computeMerkleRoot keccak256 (items.map fun item => keccak256 item.dataHash) = some root ∧
        trimPrefix (toLower declaredRoot) (ascii "0x") = hexEncode root := by
  by_cases hne : items = []
  · simp [verifyMerkleRoot, hne]
  · have hleaves : (items.map fun item => keccak256 item.dataHash) ≠ [] := by simpa using hne
    obtain ⟨root, hroot⟩ := computeMerkleRoot_isSome keccak256 hleaves
    simp [verifyMerkleRoot, hne, hroot, eq_comm]

theorem verifyMerkleRoot_congr {items items' : List BatchItem} (declaredRoot : Bytes)
    (h : items.map BatchItem.dataHash = items'.map BatchItem.dataHash) :
    verifyMerkleRoot keccak256 items declaredRoot =
      verifyMerkleRoot keccak256 items' declaredRoot := by
  have hlen := congrArg List.length h
  have hleaves := congrArg (List.map keccak256) h
  simp only [List.length_map, List.map_map] at hlen hleaves
  simp only [verifyMerkleRoot, hlen]
  rw [show (fun item : BatchItem => keccak256 item.dataHash) = keccak256 ∘ BatchItem.dataHash
    from rfl, hleaves]

/-- Keccak-256 on the strings hashed for a batch of `a` and `b`. -/
def keccakOfPair : Bytes → Bytes :=
  let a := bigEndian 32 0x3ac225168df54212a25c1c01fd35bebfea408fdac2e31ddd6f80a4bbf9a5f1cb
  let b := bigEndian 32 0xb5553de315e0edf504d9150af82dafa5c4667fa618ed0a6f19c69b41166c5510
  let ab := bigEndian 32 0x805b21d846b189efaeb0377d6bb0d201b3872a363e607c25088f025b0c6ae1f8
  fun bs => if bs = ascii "a" then a else if bs = ascii "b" then b
    else if bs = a ++ b then ab else List.replicate 32 0

theorem keccakOfPair_length (bs : Bytes) : (keccakOfPair bs).length = 32 := by
  unfold keccakOfPair
  split_ifs <;> simp

end EnergyChain.Energy
