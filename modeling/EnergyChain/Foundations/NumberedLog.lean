import Mathlib.Tactic

/-!
# Logs with entries numbered from one

An append-only list whose entries are addressed by their position, counted
from one so that zero can stand for "none". An index over the log is the list
of the numbers of the entries with some property.
-/

namespace EnergyChain.NumberedLog

variable {α : Type*}

def entry (log : List α) : ℕ → Option α
  | 0 => none
  | i + 1 => log[i]?

/-- The numbers of the entries with the property, in the order of the log. -/
def numbersOf (p : α → Prop) [DecidablePred p] (log : List α) : List ℕ :=
  (log.zipIdx.filter fun e => decide (p e.1)).map fun e => e.2 + 1

variable (log : List α)

theorem entry_append_of_le {i : ℕ} (h : i ≤ log.length) (log' : List α) :
    entry (log ++ log') i = entry log i := by
  cases i with
  | zero => rfl
  | succ i => exact List.getElem?_append_left h

@[simp] theorem entry_append_singleton (a : α) : entry (log ++ [a]) (log.length + 1) = some a := by
  simp [entry]

theorem entry_eq_none_iff {i : ℕ} : entry log i = none ↔ i = 0 ∨ log.length < i := by
  cases i with
  | zero => simp [entry]
  | succ i => simp [entry]

theorem entry_isSome_iff {i : ℕ} : (∃ a, entry log i = some a) ↔ 1 ≤ i ∧ i ≤ log.length := by
  rw [← Option.isSome_iff_exists, ← Option.ne_none_iff_isSome, Ne, entry_eq_none_iff]
  omega

theorem entry_append_singleton_eq (a : α) (i : ℕ) :
    entry (log ++ [a]) i = if i = log.length + 1 then some a else entry log i := by
  split_ifs with hi
  · rw [hi, entry_append_singleton]
  · by_cases hle : i ≤ log.length
    · exact entry_append_of_le log hle _
    · rw [(entry_eq_none_iff _).mpr (Or.inr (by simp; omega)),
        (entry_eq_none_iff _).mpr (Or.inr (by omega))]

theorem mem_iff_entry {a : α} : a ∈ log ↔ ∃ i, entry log i = some a := by
  rw [List.mem_iff_getElem?]
  constructor
  · rintro ⟨i, hi⟩
    exact ⟨i + 1, hi⟩
  · rintro ⟨i, hi⟩
    cases i with
    | zero => cases hi
    | succ i => exact ⟨i, hi⟩

variable (p : α → Prop) [DecidablePred p]

theorem numbersOf_append_singleton (a : α) :
    numbersOf p (log ++ [a]) = if p a then numbersOf p log ++ [log.length + 1]
      else numbersOf p log := by
  unfold numbersOf
  by_cases h : p a <;> simp [List.zipIdx_append, h]

theorem mem_numbersOf {i : ℕ} : i ∈ numbersOf p log ↔ ∃ a, entry log i = some a ∧ p a := by
  simp only [numbersOf, List.mem_map, List.mem_filter, decide_eq_true_eq, Prod.exists,
    List.mem_zipIdx_iff_getElem?]
  constructor
  · rintro ⟨a, j, ⟨hj, hp⟩, rfl⟩
    exact ⟨a, hj, hp⟩
  · rintro ⟨a, hi, hp⟩
    cases i with
    | zero => cases hi
    | succ j => exact ⟨a, j, ⟨hi, hp⟩, rfl⟩

theorem numbersOf_pairwise_lt : (numbersOf p log).Pairwise (· < ·) := by
  induction log using List.reverseRecOn with
  | nil => simp [numbersOf]
  | append_singleton log a ih =>
    rw [numbersOf_append_singleton]
    split_ifs
    · refine List.pairwise_append.mpr ⟨ih, List.pairwise_singleton _ _, fun i hi j hj => ?_⟩
      obtain ⟨b, hb, -⟩ := (mem_numbersOf log p).mp hi
      have hle := ((entry_isSome_iff log).mp ⟨b, hb⟩).2
      rw [List.mem_singleton.mp hj]
      omega
    · exact ih

/-! ### Indexes by a key -/

section Keyed

variable {κ : Type*} [DecidableEq κ] (key : α → κ)

variable {log} in
theorem update_numbersOf {f : κ → List ℕ} (h : ∀ k, f k = numbersOf (fun a => key a = k) log)
    (a : α) (k : κ) :
    Function.update f (key a) (f (key a) ++ [log.length + 1]) k =
      numbersOf (fun b => key b = k) (log ++ [a]) := by
  rw [numbersOf_append_singleton, ← h k]
  by_cases heq : key a = k
  · subst heq
    rw [if_pos rfl, Function.update_self]
  · rw [if_neg heq, Function.update_of_ne (Ne.symm heq)]

variable {log} in
theorem update_number {f : κ → ℕ}
    (h : ∀ k i, i ≠ 0 → (f k = i ↔ ∃ a, entry log i = some a ∧ key a = k)) {a : α}
    (hnew : ∀ b ∈ log, key b ≠ key a) (k : κ) (i : ℕ) (hi : i ≠ 0) :
    Function.update f (key a) (log.length + 1) k = i ↔
      ∃ b, entry (log ++ [a]) i = some b ∧ key b = k := by
  have hlast : ¬ ∃ b, entry log (log.length + 1) = some b := by
    rw [entry_isSome_iff]
    omega
  rw [Function.update_apply, entry_append_singleton_eq]
  split_ifs with heq hnum hnum
  · simp [heq, hnum]
  · -- an older entry does not have the key of the new one
    constructor
    · intro hi'
      exact absurd hi'.symm hnum
    · rintro ⟨b, hb, hkey⟩
      exact absurd (hkey.trans heq) (hnew b ((mem_iff_entry log).mpr ⟨i, hb⟩))
  · rw [h k i hi, hnum]
    constructor
    · rintro ⟨b, hb, -⟩
      exact absurd ⟨b, hb⟩ hlast
    · rintro ⟨b, hb, hkey⟩
      obtain rfl := Option.some.inj hb
      exact absurd hkey.symm heq
  · exact h k i hi

end Keyed

end EnergyChain.NumberedLog
