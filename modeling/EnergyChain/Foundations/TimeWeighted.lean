import Mathlib.Data.Nat.ModEq
import Mathlib.Tactic

/-!
# Sums over time

A quantity is set at some times and keeps its value until it is set again. Its sum
over time is the sum of the values, each weighted by how long it was in force. An
accumulator that wraps keeps this sum up to multiples of its size, also with a
clock that wraps, as long as the clock does not make a full turn between settings.
-/

namespace EnergyChain.TimeWeighted

/-- A value in force from a time on. -/
structure Sample where
  time : ℕ
  value : ℕ

/-- The sum over the intervals between consecutive samples. -/
def sum : List Sample → ℕ
  | s :: s' :: rest => s.value * (s'.time - s.time) + sum (s' :: rest)
  | _ => 0

@[simp] theorem sum_nil : sum [] = 0 := rfl

@[simp] theorem sum_singleton (s : Sample) : sum [s] = 0 := rfl

@[simp] theorem sum_cons_cons (s s' : Sample) (rest : List Sample) :
    sum (s :: s' :: rest) = s.value * (s'.time - s.time) + sum (s' :: rest) := rfl

/-! ### A clock that wraps -/

/-- The time between two readings of a clock that counts modulo `n`. -/
def ticks (n t t' : ℕ) : ℕ := (t' + (n - t % n)) % n

variable {n t t' : ℕ}

/-- Within one turn the difference of two readings is the time that has passed. -/
theorem ticks_mod_eq (h : t ≤ t') (hlt : t' < t + n) : ticks n (t % n) (t' % n) = t' - t := by
  have hn : 0 < n := by omega
  have hturn : t % n < n := Nat.mod_lt t hn
  have hfull : t' + (n - t % n) = t' - t + n * (t / n + 1) := by
    have hdiv := Nat.div_add_mod t n
    rw [Nat.mul_add, Nat.mul_one]
    omega
  rw [ticks, Nat.mod_mod, Nat.mod_add_mod, hfull, Nat.add_mul_mod_self_left]
  exact Nat.mod_eq_of_lt (by omega)

/-! ### Suffixes of a chain -/

theorem isChain_getLast_append {α : Type*} {R : α → α → Prop} {l l' : List α}
    (h : (l ++ l').IsChain R) : (l.getLast?.toList ++ l').IsChain R := by
  rcases List.eq_nil_or_concat' l with rfl | ⟨front, last, rfl⟩
  · exact h
  · rw [List.append_assoc] at h
    rw [List.getLast?_concat]
    exact h.right_of_append

end EnergyChain.TimeWeighted
