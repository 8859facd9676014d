import EnergyChain.Energy.MerkleRoot
import EnergyChain.Foundations.HashTrees

/-!
# x/energy: what a Merkle root commits to

The recursion over levels builds a hash tree whose join sorts the two digests
by their hex text. Three things keep a root from fixing its batch, whatever
the hash function: a last item without partner is doubled, siblings are
sorted, and leaves are hashed like inner nodes.
-/

namespace EnergyChain.Energy

variable (keccak256 : Bytes → Bytes)

/-- The string `hashPair` hashes. -/
def sortedJoin (a b : Bytes) : Bytes := if hexEncode a ≤ hexEncode b then a ++ b else b ++ a

theorem hashPair_eq (a b : Bytes) : hashPair keccak256 a b = keccak256 (sortedJoin a b) := by
  unfold hashPair sortedJoin
  split_ifs <;> rfl

theorem sortedJoin_eq (a b : Bytes) : sortedJoin a b = a ++ b ∨ sortedJoin a b = b ++ a := by
  unfold sortedJoin
  split_ifs
  · exact Or.inl rfl
  · exact Or.inr rfl

/-- Digests of one length can be read off their join, up to their order. -/
theorem sortedJoin_unordered (hlen : ∀ bs, (keccak256 bs).length = 32) :
    HashTree.Unordered keccak256 sortedJoin := by
  intro s₁ s₂ s₃ s₄ h
  rcases sortedJoin_eq (keccak256 s₁) (keccak256 s₂) with h12 | h12 <;>
    rcases sortedJoin_eq (keccak256 s₃) (keccak256 s₄) with h34 | h34 <;>
    rw [h12, h34] at h <;>
    have hsplit := List.append_inj h (by rw [hlen, hlen])
  · exact Or.inl hsplit
  · exact Or.inr hsplit
  · exact Or.inr ⟨hsplit.2, hsplit.1⟩
  · exact Or.inl ⟨hsplit.2, hsplit.1⟩

/-! ### The recursion builds a hash tree -/

theorem nextLevel_digests (ts : List (HashTree Bytes)) :
    nextLevel keccak256 (ts.map (HashTree.digest keccak256 sortedJoin)) =
      (HashTree.pairUp ts).map (HashTree.digest keccak256 sortedJoin) := by
  induction ts using HashTree.pairUp.induct with
  | case1 => rfl
  | case2 a => simp [nextLevel, HashTree.pairUp, HashTree.digest, hashPair_eq]
  | case3 a b rest ih =>
    simp [nextLevel, HashTree.pairUp, HashTree.digest, hashPair_eq, ih]

theorem merkleRounds_digests (rounds : ℕ) (ts : List (HashTree Bytes)) :
    merkleRounds keccak256 rounds (ts.map (HashTree.digest keccak256 sortedJoin)) =
      (HashTree.build rounds ts).map (HashTree.digest keccak256 sortedJoin) := by
  induction rounds generalizing ts with
  | zero =>
    match ts with
    | [] => rfl
    | [_] => rfl
    | _ :: _ :: _ => rfl
  | succ rounds ih =>
    match ts with
    | [] => exact ih []
    | [_] => rfl
    | a :: b :: rest =>
      have hstep := ih (HashTree.pairUp (a :: b :: rest))
      rw [← nextLevel_digests] at hstep
      exact hstep

/-- The tree `computeMerkleRoot` reduces a batch to. -/
def batchTree (items : List BatchItem) : Option (HashTree Bytes) :=
  HashTree.build items.length (items.map fun item => .leaf item.dataHash)

theorem computeMerkleRoot_batchTree (items : List BatchItem) :
    computeMerkleRoot keccak256 (items.map fun item => keccak256 item.dataHash) =
      (batchTree items).map (HashTree.digest keccak256 sortedJoin) := by
  have hrounds := merkleRounds_digests keccak256 items.length
    (items.map fun item => .leaf item.dataHash)
  simp only [List.map_map] at hrounds
  simp only [computeMerkleRoot, List.length_map]
  exact hrounds

/-- The strings hashed at the inner nodes for the root of a batch. -/
def innerStrings (items : List BatchItem) : List Bytes :=
  ((batchTree items).map (HashTree.inner keccak256 sortedJoin)).getD []

def hashedStrings (items : List BatchItem) : List Bytes :=
  items.map BatchItem.dataHash ++ innerStrings keccak256 items

theorem mem_leaves_batchTree {items : List BatchItem} {t : HashTree Bytes}
    (h : batchTree items = some t) {s : Bytes} :
    s ∈ t.leaves ↔ s ∈ items.map BatchItem.dataHash := by
  rw [HashTree.mem_leaves_build h]
  simp [List.flatMap_map, HashTree.leaves, eq_comm]

theorem leaves_batchTree_of_two_pow {items : List BatchItem} {t : HashTree Bytes} {k : ℕ}
    (h : batchTree items = some t) (hk : items.length = 2 ^ k) :
    t.leaves = items.map BatchItem.dataHash := by
  rw [HashTree.leaves_build_of_two_pow (by simpa using hk) h, List.flatMap_map,
    List.map_eq_flatMap]
  rfl

/-- Two batches none of whose hashed strings collide, and neither of which has
a `DataHash` that is hashed at an inner node for the other. -/
structure NoCollision (xs ys : List BatchItem) : Prop where
  injOn : Set.InjOn keccak256 {s | s ∈ hashedStrings keccak256 xs ∨ s ∈ hashedStrings keccak256 ys}
  left : ∀ item ∈ xs, item.dataHash ∉ innerStrings keccak256 ys
  right : ∀ item ∈ ys, item.dataHash ∉ innerStrings keccak256 xs

theorem NoCollision.trees {xs ys : List BatchItem} (h : NoCollision keccak256 xs ys)
    {t u : HashTree Bytes} (ht : batchTree xs = some t) (hu : batchTree ys = some u) :
    HashTree.CollisionFree keccak256 sortedJoin t u := by
  have hmem : ∀ {items : List BatchItem} {v : HashTree Bytes}, batchTree items = some v →
      ∀ s ∈ v.hashed keccak256 sortedJoin, s ∈ hashedStrings keccak256 items := by
    intro items v hv s hs
    simp only [HashTree.hashed, List.mem_append, mem_leaves_batchTree hv] at hs
    simpa [hashedStrings, innerStrings, hv] using hs
  refine ⟨h.injOn.mono fun s hs => hs.imp (hmem ht s) (hmem hu s), fun s hs => ?_, fun s hs => ?_⟩
  · obtain ⟨item, hitem, rfl⟩ := List.mem_map.mp ((mem_leaves_batchTree ht).mp hs)
    simpa [innerStrings, hu] using h.left item hitem
  · obtain ⟨item, hitem, rfl⟩ := List.mem_map.mp ((mem_leaves_batchTree hu).mp hs)
    simpa [innerStrings, ht] using h.right item hitem

/-! ### What the root does not fix -/

/-- Accepted roots that are equal up to case and prefix force the relation on
the batches, whatever collision-free hash function is used. -/
def Commits (R : List BatchItem → List BatchItem → Prop) : Prop :=
  ∀ keccak256 : Bytes → Bytes, Function.Injective keccak256 → ∀ xs ys rootX rootY,
    verifyMerkleRoot keccak256 xs rootX = .ok () → verifyMerkleRoot keccak256 ys rootY = .ok () →
    trimPrefix (toLower rootX) (ascii "0x") = trimPrefix (toLower rootY) (ascii "0x") → R xs ys

/-- The root fixes neither the number of items, nor their hashes at a given
number, nor the set of their hashes. -/
theorem merkle_root_not_binding :
    ¬ Commits (fun xs ys => xs.length = ys.length ∧
      (xs.map BatchItem.dataHash).Perm (ys.map BatchItem.dataHash)) ∧
    ¬ Commits (fun xs ys => xs.length = ys.length →
      (xs.map BatchItem.dataHash).Perm (ys.map BatchItem.dataHash)) ∧
    ¬ Commits (fun xs ys => ∀ h, h ∈ xs.map BatchItem.dataHash ↔
      h ∈ ys.map BatchItem.dataHash) := by
  let item : String → BatchItem := fun s => { dataHash := ascii s, metadata := [] }
  refine ⟨fun h => ?_, fun h => ?_, fun h => ?_⟩
  · have hlen := (h id Function.injective_id [item "a", item "b", item "c"]
      [item "a", item "b", item "c", item "c"] (ascii "61626363") (ascii "0x61626363")
      (by decide) (by decide) (by decide)).1
    exact absurd hlen (by decide)
  · have hperm := h id Function.injective_id [item "a", item "a", item "b"]
      [item "b", item "b", item "a"] (ascii "61616262") (ascii "0x61616262")
      (by decide) (by decide) (by decide) rfl
    exact absurd (hperm.count_eq (ascii "a")) (by decide)
  · have hset := h id Function.injective_id [item "ab"] [item "a", item "b"] (ascii "6162")
      (ascii "0x6162") (by decide) (by decide) (by decide) (ascii "ab")
    exact absurd (hset.mp (by decide)) (by decide)

/-- What an accepted root commits to when nothing collides. -/
theorem merkle_root_commits (hlen : ∀ bs, (keccak256 bs).length = 32)
    {xs ys : List BatchItem} {r s : Bytes}
    (hx : verifyMerkleRoot keccak256 xs r = .ok ())
    (hy : verifyMerkleRoot keccak256 ys s = .ok ())
    (hroot : trimPrefix (toLower r) (ascii "0x") = trimPrefix (toLower s) (ascii "0x"))
    (hfree : NoCollision keccak256 xs ys) :
    (∀ h, h ∈ xs.map BatchItem.dataHash ↔ h ∈ ys.map BatchItem.dataHash) ∧
    ((xs.map BatchItem.dataHash).Nodup → (ys.map BatchItem.dataHash).Nodup →
      xs.length = ys.length ∧ (xs.map BatchItem.dataHash).Perm (ys.map BatchItem.dataHash)) ∧
    ((∃ j, xs.length = 2 ^ j) → (∃ k, ys.length = 2 ^ k) →
      xs.length = ys.length ∧ (xs.map BatchItem.dataHash).Perm (ys.map BatchItem.dataHash)) := by
  obtain ⟨-, rx, hrx, hnx⟩ := (verifyMerkleRoot_ok_iff keccak256 xs r).mp hx
  obtain ⟨-, ry, hry, hny⟩ := (verifyMerkleRoot_ok_iff keccak256 ys s).mp hy
  have hdigest : rx = ry := hexEncode_injective (by rw [← hnx, ← hny, hroot])
  rw [computeMerkleRoot_batchTree] at hrx hry
  obtain ⟨t, ht, rfl⟩ := Option.map_eq_some_iff.mp hrx
  obtain ⟨u, hu, rfl⟩ := Option.map_eq_some_iff.mp hry
  have hperm : t.leaves.Perm u.leaves := HashTree.leaves_perm_of_digest_eq
    (sortedJoin_unordered keccak256 hlen) (hfree.trees keccak256 ht hu) hdigest
  have hset : ∀ h, h ∈ xs.map BatchItem.dataHash ↔ h ∈ ys.map BatchItem.dataHash := by
    intro h
    rw [← mem_leaves_batchTree ht, ← mem_leaves_batchTree hu, hperm.mem_iff]
  have hlength : (xs.map BatchItem.dataHash).Perm (ys.map BatchItem.dataHash) →
      xs.length = ys.length := fun h => by simpa using h.length_eq
  refine ⟨hset, fun hdx hdy => ?_, fun ⟨j, hj⟩ ⟨k, hk⟩ => ?_⟩
  · have hp := (List.perm_ext_iff_of_nodup hdx hdy).mpr hset
    exact ⟨hlength hp, hp⟩
  · rw [leaves_batchTree_of_two_pow ht hj, leaves_batchTree_of_two_pow hu hk] at hperm
    exact ⟨hlength hperm, hperm⟩

def itemA : BatchItem := { dataHash := ascii "a", metadata := [] }

def itemB : BatchItem := { dataHash := ascii "b", metadata := [] }

theorem noCollision_swapped : NoCollision keccakOfPair [itemA, itemB] [itemB, itemA] where
  injOn s hs s' hs' := by
    have hall : ∀ s ∈ hashedStrings keccakOfPair [itemA, itemB] ++
          hashedStrings keccakOfPair [itemB, itemA],
        ∀ s' ∈ hashedStrings keccakOfPair [itemA, itemB] ++
          hashedStrings keccakOfPair [itemB, itemA],
        keccakOfPair s = keccakOfPair s' → s = s' := by decide
    exact hall s (List.mem_append.mpr hs) s' (List.mem_append.mpr hs')
  left := by decide
  right := by decide

theorem merkle_root_commits_swapped :
    [itemA, itemB].length = [itemB, itemA].length ∧
      ([itemA, itemB].map BatchItem.dataHash).Perm ([itemB, itemA].map BatchItem.dataHash) :=
  (merkle_root_commits keccakOfPair keccakOfPair_length
    (r := ascii "0x805b21d846b189efaeb0377d6bb0d201b3872a363e607c25088f025b0c6ae1f8")
    (s := ascii "805B21D846B189EFAEB0377D6BB0D201B3872A363E607C25088F025B0C6AE1F8")
    (by decide) (by decide) (by decide) noCollision_swapped).2.1 (by decide) (by decide)

end EnergyChain.Energy
