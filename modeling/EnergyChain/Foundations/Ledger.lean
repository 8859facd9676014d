import Mathlib.Algebra.BigOperators.Group.Finset.Piecewise
import Mathlib.Algebra.Order.BigOperators.Group.Finset
import Mathlib.Tactic

/-!
# Ledgers of balances

A ledger gives each of finitely many accounts an amount. Amounts are created,
destroyed and moved between accounts; the total follows from these operations,
and an account pays only when it is the source of one.
-/

namespace EnergyChain.Ledger

variable {A : Type*} [DecidableEq A]

def credit (f : A → ℕ) (a : A) (v : ℕ) : A → ℕ := Function.update f a (f a + v)

def debit (f : A → ℕ) (a : A) (v : ℕ) : A → ℕ := Function.update f a (f a - v)

/-- The source pays first; source and target may be one account. -/
def move (f : A → ℕ) (source target : A) (v : ℕ) : A → ℕ := credit (debit f source v) target v

variable {f : A → ℕ} {a b source target : A} {v : ℕ}

@[simp] theorem credit_self : credit f a v a = f a + v := by simp [credit]

theorem credit_of_ne (h : b ≠ a) : credit f a v b = f b := by simp [credit, h]

@[simp] theorem debit_self : debit f a v a = f a - v := by simp [debit]

theorem debit_of_ne (h : b ≠ a) : debit f a v b = f b := by simp [debit, h]

theorem le_credit (f : A → ℕ) (a : A) (v : ℕ) (b : A) : f b ≤ credit f a v b := by
  by_cases h : b = a
  · subst h
    simp
  · rw [credit_of_ne h]

theorem le_move_of_ne (h : b ≠ source) : f b ≤ move f source target v b := by
  have hle := le_credit (debit f source v) target v b
  rwa [debit_of_ne h] at hle

theorem sub_le_move (f : A → ℕ) (source target : A) (v : ℕ) :
    f source - v ≤ move f source target v source := by
  have hle := le_credit (debit f source v) target v source
  rwa [debit_self] at hle

theorem move_of_ne (hsource : b ≠ source) (htarget : b ≠ target) :
    move f source target v b = f b := by
  rw [move, credit_of_ne htarget, debit_of_ne hsource]

theorem move_source (h : source ≠ target) : move f source target v source = f source - v := by
  rw [move, credit_of_ne h, debit_self]

theorem move_target (h : source ≠ target) : move f source target v target = f target + v := by
  rw [move, credit_self, debit_of_ne h.symm]

theorem credit_apply (f : A → ℕ) (a : A) (v : ℕ) (b : A) :
    credit f a v b = f b + if a = b then v else 0 := by
  by_cases h : a = b
  · rw [if_pos h, ← h, credit_self]
  · rw [if_neg h, credit_of_ne (Ne.symm h), Nat.add_zero]

theorem debit_apply (h : v ≤ f a) (b : A) : debit f a v b + (if a = b then v else 0) = f b := by
  by_cases heq : a = b
  · rw [if_pos heq, ← heq, debit_self, Nat.sub_add_cancel h]
  · rw [if_neg heq, debit_of_ne (Ne.symm heq), Nat.add_zero]

theorem move_apply (h : v ≤ f source) (target b : A) :
    move f source target v b + (if source = b then v else 0) =
      f b + if target = b then v else 0 := by
  rw [move, credit_apply, Nat.add_right_comm, debit_apply h]

theorem debit_credit : debit (credit f a v) a v = f := by
  simp [debit, credit]

theorem credit_comm {u : ℕ} (h : a ≠ b) :
    credit (credit f a v) b u = credit (credit f b u) a v := by
  unfold credit
  rw [Function.update_of_ne h, Function.update_of_ne h.symm, Function.update_comm h]

@[simp] theorem move_zero : move f source target 0 = f := by
  simp [move, credit, debit]

section Total

variable [Fintype A]

def total (f : A → ℕ) : ℕ := ∑ a, f a

omit [DecidableEq A] in
theorem le_total (f : A → ℕ) (a : A) : f a ≤ total f :=
  Finset.single_le_sum (fun _ _ => Nat.zero_le _) (Finset.mem_univ a)

theorem add_le_total (h : a ≠ b) : f a + f b ≤ total f := by
  rw [total, ← Finset.sum_pair h]
  exact Finset.sum_le_sum_of_subset (Finset.subset_univ _)

theorem total_update (f : A → ℕ) (a : A) (v : ℕ) :
    total (Function.update f a v) + f a = total f + v := by
  unfold total
  rw [Finset.sum_update_of_mem (Finset.mem_univ a), Finset.sdiff_singleton_eq_erase,
    ← Finset.add_sum_erase Finset.univ f (Finset.mem_univ a)]
  omega

theorem total_credit (f : A → ℕ) (a : A) (v : ℕ) : total (credit f a v) = total f + v := by
  have hupd := total_update f a (f a + v)
  unfold credit
  omega

theorem total_debit (h : v ≤ f a) : total (debit f a v) + v = total f := by
  have hupd := total_update f a (f a - v)
  unfold debit
  omega

theorem total_move (h : v ≤ f source) : total (move f source target v) = total f := by
  rw [move, total_credit, total_debit h]

omit [DecidableEq A] in
theorem total_zero : total (fun _ : A => 0) = 0 := by simp [total]

end Total
end EnergyChain.Ledger
