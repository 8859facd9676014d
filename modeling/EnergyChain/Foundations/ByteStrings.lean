import Mathlib.Data.List.Lex
import Mathlib.Data.Nat.Digits.Lemmas
import Mathlib.Tactic

/-!
# Byte strings

Strings of a byte-oriented language, fixed-width big-endian numerals, and the
cancellation laws for keys built from variable-length parts: a part is either
closed by a separator symbol it does not contain, or followed by a tail of
fixed length.
-/

namespace EnergyChain

abbrev Byte := Fin 256

/-- The instance behind byte literals. -/
instance neZeroByte : NeZero 256 := ⟨by decide⟩

/-- An arbitrary sequence of bytes; no encoding is implied. -/
abbrev Bytes := List Byte

/-- The bytes of an ASCII literal. -/
def ascii (s : String) : Bytes := s.toList.map fun c => Fin.ofNat 256 c.toNat

/-! ### Big-endian numerals -/

/-- The lowest `width` base-256 digits of a number, most significant first. -/
def bigEndian : ℕ → ℕ → Bytes
  | 0, _ => []
  | width + 1, n => bigEndian width (n / 256) ++ [Fin.ofNat 256 n]

def ofBigEndian (bs : Bytes) : ℕ := bs.foldl (fun acc b => acc * 256 + b.val) 0

@[simp] theorem bigEndian_length (width n : ℕ) : (bigEndian width n).length = width := by
  induction width generalizing n with
  | zero => rfl
  | succ width ih => simp [bigEndian, ih]

theorem ofBigEndian_bigEndian (width n : ℕ) :
    ofBigEndian (bigEndian width n) = n % 256 ^ width := by
  induction width generalizing n with
  | zero => simp [bigEndian, ofBigEndian, Nat.mod_one]
  | succ width ih =>
    have hstep : ofBigEndian (bigEndian (width + 1) n) =
        ofBigEndian (bigEndian width (n / 256)) * 256 + n % 256 := by
      simp [bigEndian, ofBigEndian, Fin.ofNat]
    rw [hstep, ih, pow_succ, Nat.mul_comm (256 ^ width), Nat.mod_mul]
    ring

theorem bigEndian_inj {width m n : ℕ} (hm : m < 256 ^ width) (hn : n < 256 ^ width) :
    bigEndian width m = bigEndian width n ↔ m = n := by
  constructor
  · intro h
    have hv := congrArg ofBigEndian h
    rwa [ofBigEndian_bigEndian, ofBigEndian_bigEndian, Nat.mod_eq_of_lt hm,
      Nat.mod_eq_of_lt hn] at hv
  · rintro rfl
    rfl

/-! ### Lexicographic order -/

section Order

variable {A : Type*} [LinearOrder A]

theorem append_lt_append_iff {p x y : List A} : p ++ x < p ++ y ↔ x < y := by
  induction p with
  | nil => rfl
  | cons a p ih => simp [ih]

theorem append_lt_append_iff_of_length_eq {p q x y : List A} (hlen : p.length = q.length) :
    p ++ x < q ++ y ↔ p < q ∨ (p = q ∧ x < y) := by
  induction p generalizing q with
  | nil =>
    obtain rfl := List.length_eq_zero_iff.mp hlen.symm
    simp
  | cons c p ih =>
    cases q with
    | nil => simp at hlen
    | cons d q =>
      simp only [List.length_cons, Nat.add_right_cancel_iff] at hlen
      simp only [List.cons_append, List.cons_lt_cons_iff, ih hlen, List.cons.injEq]
      tauto

theorem append_lt_iff_of_length_eq {p q x : List A} (hlen : p.length = q.length) :
    p ++ x < q ↔ p < q := by
  have hnil := append_lt_append_iff_of_length_eq (x := x) (y := []) hlen
  simpa using hnil

theorem append_singleton_lt_iff {p q : List A} {a b : A} (hlen : p.length = q.length) :
    p ++ [a] < q ++ [b] ↔ p < q ∨ (p = q ∧ a < b) := by
  rw [append_lt_append_iff_of_length_eq hlen]
  simp [List.cons_lt_cons_iff]

theorem prefix_of_between {p x y k : List A} (hlow : p ++ x ≤ k) (hhigh : k < p ++ y) :
    p <+: k := by
  induction p generalizing k with
  | nil => exact List.nil_prefix
  | cons a p ih =>
    cases k with
    | nil => exact absurd hlow (not_le.mpr (List.nil_lt_cons a (p ++ x)))
    | cons b k =>
      rw [← not_lt] at hlow
      simp only [List.cons_append, List.cons_lt_cons_iff, not_or, not_and] at hlow hhigh
      obtain ⟨hnlt, htail⟩ := hlow
      have hab : b = a := by
        rcases hhigh with hlt | ⟨heq, -⟩
        · exact absurd hlt hnlt
        · exact heq
      subst hab
      have hhigh' : k < p ++ y := by simpa using hhigh
      exact (List.cons_prefix_cons).mpr ⟨rfl, ih (not_lt.mp (htail rfl)) hhigh'⟩

theorem bigEndian_lt_iff {width m n : ℕ} (hm : m < 256 ^ width) (hn : n < 256 ^ width) :
    bigEndian width m < bigEndian width n ↔ m < n := by
  induction width generalizing m n with
  | zero =>
    simp only [pow_zero, Nat.lt_one_iff] at hm hn
    subst hm hn
    simp
  | succ width ih =>
    rw [pow_succ] at hm hn
    have hm' : m / 256 < 256 ^ width := Nat.div_lt_of_lt_mul (by rwa [Nat.mul_comm])
    have hn' : n / 256 < 256 ^ width := Nat.div_lt_of_lt_mul (by rwa [Nat.mul_comm])
    rw [bigEndian, bigEndian, append_singleton_lt_iff (by simp), ih hm' hn',
      bigEndian_inj hm' hn', Fin.lt_def]
    simp only [Fin.ofNat]
    omega

end Order

/-! ### Parts of a key -/

section Separators

variable {A : Type*} {sep : A} {p q x y : List A}

theorem append_sep_inj (hp : sep ∉ p) (hq : sep ∉ q) :
    p ++ sep :: x = q ++ sep :: y ↔ p = q ∧ x = y := by
  constructor
  · intro h
    induction p generalizing q with
    | nil =>
      cases q with
      | nil => simpa using h
      | cons b q =>
        simp only [List.nil_append, List.cons_append, List.cons.injEq] at h
        exact absurd (h.1 ▸ List.mem_cons_self) hq
    | cons a p ih =>
      cases q with
      | nil =>
        simp only [List.nil_append, List.cons_append, List.cons.injEq] at h
        exact absurd (h.1 ▸ List.mem_cons_self) hp
      | cons b q =>
        simp only [List.cons_append, List.cons.injEq] at h
        have hrec := ih (fun hm => hp (List.mem_cons_of_mem _ hm))
          (fun hm => hq (List.mem_cons_of_mem _ hm)) h.2
        exact ⟨by rw [h.1, hrec.1], hrec.2⟩
  · rintro ⟨rfl, rfl⟩
    rfl

/-- The same cut read from the right: the tails are free of the separator. -/
theorem append_sep_inj_right (hx : sep ∉ x) (hy : sep ∉ y) :
    p ++ sep :: x = q ++ sep :: y ↔ p = q ∧ x = y := by
  have hrev := append_sep_inj (x := p.reverse) (y := q.reverse)
    (mt List.mem_reverse.mp hx) (mt List.mem_reverse.mp hy)
  rw [← List.reverse_inj]
  simpa [and_comm] using hrev

/-- A string closed by the separator is a prefix of a key whose tail is free of
it only when the part in front of the tail is the string or goes on from it. -/
theorem append_sep_isPrefix_iff (hy : sep ∉ y) :
    p ++ [sep] <+: q ++ sep :: y ↔ p = q ∨ p ++ [sep] <+: q := by
  constructor
  · rintro ⟨t, ht⟩
    rw [List.append_assoc, List.singleton_append] at ht
    rcases List.append_eq_append_iff.mp ht with ⟨a, rfl, ha⟩ | ⟨a, rfl, ha⟩
    · cases a with
      | nil => exact Or.inl (by simp)
      | cons b a =>
        obtain ⟨rfl, -⟩ := List.cons.inj ha
        exact Or.inr ⟨a, by simp⟩
    · cases a with
      | nil => exact Or.inl (by simp)
      | cons b a =>
        obtain ⟨-, rfl⟩ := List.cons.inj ha
        simp at hy
  · rintro (rfl | hpre)
    · exact ⟨y, by simp⟩
    · exact hpre.trans (List.prefix_append _ _)

theorem append_sep_isPrefix (hq : sep ∉ q) (hy : sep ∉ y) :
    p ++ [sep] <+: q ++ sep :: y ↔ p = q := by
  rw [append_sep_isPrefix_iff hy, or_iff_left]
  intro hpre
  exact hq (hpre.subset (by simp))

theorem append_sep_fixed_inj (hlen : x.length = y.length) :
    p ++ sep :: x = q ++ sep :: y ↔ p = q ∧ x = y := by
  constructor
  · intro h
    have h' := List.append_inj' h (by simp [hlen])
    exact ⟨h'.1, by simpa using h'.2⟩
  · rintro ⟨rfl, rfl⟩
    rfl

end Separators
end EnergyChain
