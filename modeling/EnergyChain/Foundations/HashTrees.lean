import Mathlib.Data.Set.Function
import Mathlib.Tactic

/-!
# Binary hash trees

Trees over strings: a leaf is hashed as it is, an inner node hashes the joined
digests of its children. The join may forget the order of the two digests, so
a digest determines its tree up to swapped children at best. It does so as
long as the hash function has no collision among the strings of the two trees
and no leaf string is also the joined pair of an inner node.

Levels are reduced pairwise; a last tree without partner is paired with itself.
-/

namespace EnergyChain

inductive HashTree (S : Type*) where
  | leaf (s : S)
  | node (l r : HashTree S)

namespace HashTree

variable {S D : Type*}

def leaves : HashTree S → List S
  | leaf s => [s]
  | node l r => l.leaves ++ r.leaves

section Digests

variable (hash : S → D) (join : D → D → S)

def digest : HashTree S → D
  | leaf s => hash s
  | node l r => hash (join (digest l) (digest r))

/-- The strings hashed at the inner nodes. -/
def inner : HashTree S → List S
  | leaf _ => []
  | node l r => join (l.digest hash join) (r.digest hash join) :: (inner l ++ inner r)

def hashed (t : HashTree S) : List S := t.leaves ++ t.inner hash join

/-- The join determines the two digests up to their order. -/
def Unordered : Prop :=
  ∀ s₁ s₂ s₃ s₄ : S, join (hash s₁) (hash s₂) = join (hash s₃) (hash s₄) →
    (hash s₁ = hash s₃ ∧ hash s₂ = hash s₄) ∨ (hash s₁ = hash s₄ ∧ hash s₂ = hash s₃)

theorem digest_mem_range (t : HashTree S) : ∃ s, t.digest hash join = hash s := by
  cases t with
  | leaf s => exact ⟨s, rfl⟩
  | node l r => exact ⟨_, rfl⟩

variable {hash join}

theorem Unordered.digests (h : Unordered hash join) {a b c d : HashTree S}
    (heq : join (a.digest hash join) (b.digest hash join) =
      join (c.digest hash join) (d.digest hash join)) :
    (a.digest hash join = c.digest hash join ∧ b.digest hash join = d.digest hash join) ∨
      (a.digest hash join = d.digest hash join ∧ b.digest hash join = c.digest hash join) := by
  obtain ⟨sa, ha⟩ := digest_mem_range hash join a
  obtain ⟨sb, hb⟩ := digest_mem_range hash join b
  obtain ⟨sc, hc⟩ := digest_mem_range hash join c
  obtain ⟨sd, hd⟩ := digest_mem_range hash join d
  rw [ha, hb, hc, hd] at heq ⊢
  exact h sa sb sc sd heq

variable (hash join) in
/-- No two of the strings hashed for the two trees collide, and no leaf string
of one is hashed at an inner node of the other. -/
structure CollisionFree (t u : HashTree S) : Prop where
  injOn : Set.InjOn hash {s | s ∈ t.hashed hash join ∨ s ∈ u.hashed hash join}
  left : ∀ s ∈ t.leaves, s ∉ u.inner hash join
  right : ∀ s ∈ u.leaves, s ∉ t.inner hash join

theorem CollisionFree.subtrees {t u x y : HashTree S} (h : CollisionFree hash join t u)
    (hx : x.leaves ⊆ t.leaves ∧ x.inner hash join ⊆ t.inner hash join)
    (hy : y.leaves ⊆ u.leaves ∧ y.inner hash join ⊆ u.inner hash join) :
    CollisionFree hash join x y where
  injOn := h.injOn.mono fun _ hs => hs.imp
    (fun hs => List.mem_append.mpr ((List.mem_append.mp hs).imp (@hx.1 _) (@hx.2 _)))
    (fun hs => List.mem_append.mpr ((List.mem_append.mp hs).imp (@hy.1 _) (@hy.2 _)))
  left s hsx hsy := h.left s (hx.1 hsx) (hy.2 hsy)
  right s hsy hsx := h.right s (hy.1 hsy) (hx.2 hsx)

theorem subset_node_left (l r : HashTree S) : l.leaves ⊆ (node l r).leaves ∧
    l.inner hash join ⊆ (node l r).inner hash join :=
  ⟨List.subset_append_left _ _, fun _ hs => List.mem_cons_of_mem _ (List.mem_append_left _ hs)⟩

theorem subset_node_right (l r : HashTree S) : r.leaves ⊆ (node l r).leaves ∧
    r.inner hash join ⊆ (node l r).inner hash join :=
  ⟨List.subset_append_right _ _, fun _ hs => List.mem_cons_of_mem _ (List.mem_append_right _ hs)⟩

/-- Equal digests without a collision: the same leaf strings, equally often. -/
theorem leaves_perm_of_digest_eq (hjoin : Unordered hash join) {t u : HashTree S}
    (hfree : CollisionFree hash join t u) (heq : t.digest hash join = u.digest hash join) :
    t.leaves.Perm u.leaves := by
  induction t generalizing u with
  | leaf s =>
    cases u with
    | leaf s' =>
      have hs : s = s' := hfree.injOn (by simp [hashed, leaves]) (by simp [hashed, leaves]) heq
      rw [hs]
    | node l r =>
      have hs := hfree.injOn (by simp [hashed, leaves]) (by simp [hashed, inner]) heq
      exact absurd (by simp [inner, hs]) (hfree.left s (by simp [leaves]))
  | node a b iha ihb =>
    cases u with
    | leaf s =>
      have hs := hfree.injOn (by simp [hashed, inner]) (by simp [hashed, leaves]) heq
      exact absurd (by simp [inner, ← hs]) (hfree.right s (by simp [leaves]))
    | node c d =>
      have hs := hfree.injOn (by simp [hashed, inner]) (by simp [hashed, inner]) heq
      rcases hjoin.digests hs with ⟨hac, hbd⟩ | ⟨had, hbc⟩
      · have hleft := iha (hfree.subtrees (subset_node_left a b) (subset_node_left c d)) hac
        have hright := ihb (hfree.subtrees (subset_node_right a b) (subset_node_right c d)) hbd
        exact hleft.append hright
      · have hleft := iha (hfree.subtrees (subset_node_left a b) (subset_node_right c d)) had
        have hright := ihb (hfree.subtrees (subset_node_right a b) (subset_node_left c d)) hbc
        exact (hleft.append hright).trans List.perm_append_comm

end Digests

/-! ### Reducing a level -/

def pairUp : List (HashTree S) → List (HashTree S)
  | [] => []
  | [a] => [node a a]
  | a :: b :: rest => node a b :: pairUp rest

/-- Reduce until one tree is left, in at most the given number of rounds. -/
def build : ℕ → List (HashTree S) → Option (HashTree S)
  | _, [t] => some t
  | 0, _ => none
  | rounds + 1, ts => build rounds (pairUp ts)

theorem mem_leaves_pairUp {s : S} (ts : List (HashTree S)) :
    s ∈ (pairUp ts).flatMap leaves ↔ s ∈ ts.flatMap leaves := by
  induction ts using pairUp.induct with
  | case1 => rfl
  | case2 a => simp [pairUp, leaves]
  | case3 a b rest ih =>
    rw [pairUp, List.flatMap_cons, List.mem_append, ih]
    simp [leaves, or_assoc]

theorem pairUp_length (ts : List (HashTree S)) : (pairUp ts).length = (ts.length + 1) / 2 := by
  induction ts using pairUp.induct with
  | case1 => simp [pairUp]
  | case2 a => simp [pairUp]
  | case3 a b rest ih =>
    simp only [pairUp, List.length_cons, ih]
    omega

theorem leaves_pairUp_of_even (ts : List (HashTree S)) (h : 2 ∣ ts.length) :
    (pairUp ts).flatMap leaves = ts.flatMap leaves := by
  induction ts using pairUp.induct with
  | case1 => rfl
  | case2 a =>
    rw [List.length_singleton] at h
    omega
  | case3 a b rest ih =>
    simp only [List.length_cons] at h
    rw [pairUp, List.flatMap_cons, ih (by omega)]
    simp [leaves]

theorem mem_leaves_build {rounds : ℕ} {ts : List (HashTree S)} {t : HashTree S}
    (h : build rounds ts = some t) {s : S} : s ∈ t.leaves ↔ s ∈ ts.flatMap leaves := by
  induction rounds generalizing ts with
  | zero =>
    match ts with
    | [t'] =>
      cases h
      simp
    | [] => cases h
    | _ :: _ :: _ => cases h
  | succ rounds ih =>
    match ts with
    | [t'] =>
      cases h
      simp
    | [] => exact (ih h).trans (mem_leaves_pairUp [])
    | a :: b :: rest => exact (ih h).trans (mem_leaves_pairUp (a :: b :: rest))

/-- From a power of two of trees every leaf is kept once. -/
theorem leaves_build_of_two_pow {rounds k : ℕ} {ts : List (HashTree S)} {t : HashTree S}
    (hk : ts.length = 2 ^ k) (h : build rounds ts = some t) : t.leaves = ts.flatMap leaves := by
  induction k generalizing rounds ts with
  | zero =>
    obtain ⟨t', rfl⟩ := List.length_eq_one_iff.mp hk
    cases rounds <;> cases h <;> simp
  | succ k ih =>
    match ts, rounds with
    | [], _ => exact absurd hk.symm (pow_ne_zero _ two_ne_zero)
    | [_], _ =>
      have hpos := Nat.pos_of_ne_zero (pow_ne_zero k two_ne_zero)
      rw [List.length_singleton, pow_succ] at hk
      omega
    | _ :: _ :: _, 0 => cases h
    | a :: b :: rest, rounds + 1 =>
      have heven : 2 ∣ (a :: b :: rest).length := ⟨2 ^ k, by rw [hk, pow_succ]; ring⟩
      have hlen : (pairUp (a :: b :: rest)).length = 2 ^ k := by
        rw [pairUp_length, hk, pow_succ]
        omega
      exact (ih hlen h).trans (leaves_pairUp_of_even _ heven)

end HashTree
end EnergyChain
