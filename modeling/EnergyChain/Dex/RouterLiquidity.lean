import EnergyChain.Dex.RouterSwap

/-!
# The amounts of added liquidity

`_addLiquidity` takes one of the desired amounts in full and as much of the other
as belongs to it at the reserves. Each branch checks one of the two minimums; the
other holds since its amount is the desired one.
-/

namespace EnergyChain.Dex

open Library ConstantProduct

theorem quote_ok_iff {amountA reserveA reserveB amountB : ℕ} :
    quote amountA reserveA reserveB = .ok amountB ↔
      0 < amountA ∧ (0 < reserveA ∧ 0 < reserveB) ∧ amountA * reserveB < uint256Size ∧
        proportional amountA reserveA reserveB = amountB := by
  simp only [quote, except_bind_ok_iff, require_ok_iff, checkedMul_ok_iff, checkedDiv_ok_iff]
  constructor
  · rintro ⟨-, hamount, -, hreserves, _, ⟨hfits, rfl⟩, -, rfl⟩
    exact ⟨hamount, hreserves, hfits, rfl⟩
  · rintro ⟨hamount, hreserves, hfits, rfl⟩
    exact ⟨(), hamount, (), hreserves, _, ⟨hfits, rfl⟩, hreserves.1.ne', rfl⟩

namespace Router

/-- Two floors in opposite directions: the amount computed back is no more than
the one it began with. -/
theorem quote_back_le {amountADesired amountBDesired reserveA reserveB amountAOptimal
    amountBOptimal : ℕ} (hB : quote amountADesired reserveA reserveB = .ok amountBOptimal)
    (hless : ¬ amountBOptimal ≤ amountBDesired)
    (hA : quote amountBDesired reserveB reserveA = .ok amountAOptimal) :
    amountAOptimal ≤ amountADesired := by
  obtain ⟨-, -, -, rfl⟩ := quote_ok_iff.mp hB
  obtain ⟨-, -, -, rfl⟩ := quote_ok_iff.mp hA
  exact proportional_le_of_lt (not_le.mp hless)

/-! ### Calls that do not fail at an `assert` -/

/-- The call may fail, but not at an `assert`. -/
def Asserts {α : Type} (m : Except Revert α) : Prop := m ≠ .error (.panic 0x01)

namespace Asserts

variable {α β : Type} {m : Except Revert α} {f : α → Except Revert β}

theorem ok (a : α) : Asserts (.ok a : Except Revert α) := by
  intro h
  cases h

theorem of_noPanic (h : NoPanic m) : Asserts m := h 0x01

theorem bind (hm : Asserts m) (hf : ∀ a, m = .ok a → Asserts (f a)) : Asserts (m >>= f) := by
  cases m with
  | error e =>
    intro h
    exact hm (congrArg Except.error (Except.error.inj h))
  | ok a => exact hf a rfl

theorem checkedMul (x y : ℕ) : Asserts (EnergyChain.checkedMul x y) := by
  unfold EnergyChain.checkedMul Asserts
  split_ifs <;> simp

theorem checkedDiv (x y : ℕ) : Asserts (EnergyChain.checkedDiv x y) := by
  unfold EnergyChain.checkedDiv Asserts
  split_ifs <;> simp

theorem quote (amountA reserveA reserveB : ℕ) :
    Asserts (Library.quote amountA reserveA reserveB) := by
  apply bind (of_noPanic (NoPanic.require _ _))
  intro _ _
  apply bind (of_noPanic (NoPanic.require _ _))
  intro _ _
  apply bind (checkedMul _ _)
  intro product _
  exact checkedDiv _ _

theorem sortTokens (tokenA tokenB : Address) : Asserts (Library.sortTokens tokenA tokenB) := by
  apply bind (of_noPanic (NoPanic.require _ _))
  intro _ _
  apply bind (of_noPanic (NoPanic.require _ _))
  intro _ _
  exact ok _

theorem getReserves (c : Chain) (tokenA tokenB : Address) :
    Asserts (Library.getReserves c tokenA tokenB) := by
  apply bind (sortTokens tokenA tokenB)
  intro tokens _
  refine bind ?_ fun reserves _ => ok _
  unfold Chain.getReserves Asserts
  split <;> simp

theorem deploy (d : Deployment) (token0 token1 : Address) (c : Chain) :
    Asserts (d.deploy token0 token1 c) := by
  unfold Deployment.deploy Asserts
  split
  · simp
  · split <;> simp

theorem ensurePair (d : Deployment) (tokenA tokenB : Address) (c : Chain) :
    Asserts (Router.ensurePair d tokenA tokenB c) := by
  unfold Router.ensurePair
  split_ifs
  · refine bind ?_ fun pair _ => ok _
    apply bind (of_noPanic (NoPanic.require _ _))
    intro _ _
    apply bind (of_noPanic (NoPanic.require _ _))
    intro _ _
    apply bind (of_noPanic (NoPanic.require _ _))
    intro _ _
    exact bind (deploy d _ _ c) fun deployed _ => ok _
  · exact ok c

/-- The only `assert` is the one that `quote_back_le` is about. -/
theorem optimalAmounts (amountADesired amountBDesired amountAMin amountBMin reserveA reserveB : ℕ) :
    Asserts (Router.optimalAmounts amountADesired amountBDesired amountAMin amountBMin reserveA
      reserveB) := by
  apply bind (quote _ _ _)
  intro amountBOptimal hB
  split_ifs with hle
  · exact bind (of_noPanic (NoPanic.require _ _)) fun _ _ => ok _
  · apply bind (quote _ _ _)
    intro amountAOptimal hA
    have hassert : assert (amountAOptimal ≤ amountADesired) = .ok () :=
      assert_ok_iff.mpr (quote_back_le hB hle hA)
    refine bind ?_ fun _ _ => bind (of_noPanic (NoPanic.require _ _)) fun _ _ => ok _
    rw [hassert]
    exact ok ()

theorem liquidityAmounts (d : Deployment) (tokenA tokenB : Address)
    (amountADesired amountBDesired amountAMin amountBMin : ℕ) (c : Chain) :
    Asserts (Router.liquidityAmounts d tokenA tokenB amountADesired amountBDesired amountAMin
      amountBMin c) := by
  apply bind (ensurePair d tokenA tokenB c)
  intro c₁ _
  apply bind (getReserves c₁ tokenA tokenB)
  rintro ⟨reserveA, reserveB⟩ _
  dsimp only
  split_ifs
  · exact ok _
  · exact bind (optimalAmounts _ _ _ _ _ _) fun amounts _ => ok _

end Asserts

/-! ### The bounds -/

section Bounds

variable {amountADesired amountBDesired amountAMin amountBMin reserveA reserveB amountA amountB : ℕ}

/-- One desired amount in full and what belongs to it of the other. -/
def InProportion (amountADesired amountBDesired reserveA reserveB amountA amountB : ℕ) : Prop :=
  (amountA = amountADesired ∧ amountB = amountADesired * reserveB / reserveA) ∨
    (amountB = amountBDesired ∧ amountA = amountBDesired * reserveA / reserveB)

theorem optimalAmounts_bounds (hAMin : amountAMin ≤ amountADesired)
    (hBMin : amountBMin ≤ amountBDesired)
    (h : optimalAmounts amountADesired amountBDesired amountAMin amountBMin reserveA reserveB =
      .ok (amountA, amountB)) :
    (amountAMin ≤ amountA ∧ amountA ≤ amountADesired) ∧
      (amountBMin ≤ amountB ∧ amountB ≤ amountBDesired) ∧
      InProportion amountADesired amountBDesired reserveA reserveB amountA amountB := by
  simp only [optimalAmounts, except_bind_ok_iff] at h
  obtain ⟨amountBOptimal, hB, h⟩ := h
  have hproportionB := (quote_ok_iff.mp hB).2.2.2
  split_ifs at h with hle
  · simp only [except_bind_ok_iff, require_ok_iff, except_pure_ok_iff, Prod.mk.injEq] at h
    obtain ⟨-, hmin, rfl, rfl⟩ := h
    exact ⟨⟨hAMin, le_rfl⟩, ⟨hmin, hle⟩, Or.inl ⟨rfl, hproportionB.symm⟩⟩
  · simp only [except_bind_ok_iff, require_ok_iff, assert_ok_iff, except_pure_ok_iff,
      Prod.mk.injEq] at h
    obtain ⟨amountAOptimal, hA, -, hless, -, hmin, rfl, rfl⟩ := h
    have hproportionA := (quote_ok_iff.mp hA).2.2.2
    exact ⟨⟨hmin, hless⟩, ⟨hBMin, le_rfl⟩, Or.inr ⟨rfl, hproportionA.symm⟩⟩

/-- The amounts of `_addLiquidity` lie between the minimums and the desired
amounts, are in proportion to the reserves where there are some, and the `assert`
holds wherever it is reached. -/
theorem liquidityAmounts_bounds (d : Deployment) (c : Chain) (tokenA tokenB : Address)
    (hAMin : amountAMin ≤ amountADesired) (hBMin : amountBMin ≤ amountBDesired) :
    (∀ amountA amountB c', liquidityAmounts d tokenA tokenB amountADesired amountBDesired
        amountAMin amountBMin c = .ok ((amountA, amountB), c') →
      (amountAMin ≤ amountA ∧ amountA ≤ amountADesired) ∧
      (amountBMin ≤ amountB ∧ amountB ≤ amountBDesired) ∧
      ∃ reserveA reserveB, getReserves c' tokenA tokenB = .ok (reserveA, reserveB) ∧
        (¬ (reserveA = 0 ∧ reserveB = 0) →
          InProportion amountADesired amountBDesired reserveA reserveB amountA amountB)) ∧
    (∀ reserveA reserveB amountBOptimal amountAOptimal,
      quote amountADesired reserveA reserveB = .ok amountBOptimal →
      ¬ amountBOptimal ≤ amountBDesired →
      quote amountBDesired reserveB reserveA = .ok amountAOptimal →
        amountAOptimal ≤ amountADesired) ∧
    liquidityAmounts d tokenA tokenB amountADesired amountBDesired amountAMin amountBMin c ≠
      .error (.panic 0x01) := by
  refine ⟨?_, fun _ _ _ _ => quote_back_le, Asserts.liquidityAmounts _ _ _ _ _ _ _ _⟩
  intro amountA amountB c' h
  simp only [liquidityAmounts, except_bind_ok_iff] at h
  obtain ⟨c₁, -, ⟨reserveA, reserveB⟩, hreserves, h⟩ := h
  dsimp only at h
  split_ifs at h with hempty
  · simp only [except_bind_ok_iff, except_pure_ok_iff, Except.ok.injEq, Prod.mk.injEq] at h
    obtain ⟨amounts, rfl, ⟨rfl, rfl⟩, rfl⟩ := h
    exact ⟨⟨hAMin, le_rfl⟩, ⟨hBMin, le_rfl⟩, reserveA, reserveB, hreserves,
      fun hne => absurd hempty hne⟩
  · simp only [except_bind_ok_iff, except_pure_ok_iff, Prod.mk.injEq] at h
    obtain ⟨amounts, hamounts, rfl, rfl⟩ := h
    obtain ⟨hA, hB, hproportion⟩ := optimalAmounts_bounds hAMin hBMin hamounts
    exact ⟨hA, hB, reserveA, reserveB, hreserves, fun _ => hproportion⟩

/-- At equal reserves 1000 and 700 become 700 and 700. -/
theorem liquidityAmounts_bounds_sample :
    (∃ c', liquidityAmounts sampleDeployment ⟨2⟩ ⟨3⟩ 1000 700 600 700 sampleExchange =
      .ok ((700, 700), c')) ∧
    (700 ≤ 700 ∧ 700 ≤ 700) ∧ (600 ≤ 700 ∧ 700 ≤ 1000) := by
  have hrun : ∃ c', liquidityAmounts sampleDeployment ⟨2⟩ ⟨3⟩ 1000 700 600 700 sampleExchange =
      .ok ((700, 700), c') := ⟨_, rfl⟩
  obtain ⟨c', hsample⟩ := hrun
  obtain ⟨hA, hB, -⟩ := (@liquidityAmounts_bounds 1000 700 600 700 sampleDeployment sampleExchange
    ⟨2⟩ ⟨3⟩ (by decide) (by decide)).1 _ _ _ hsample
  exact ⟨⟨c', hsample⟩, hB, hA⟩

end Bounds
end Router
end EnergyChain.Dex
