import EnergyChain.Dex.RouterSwap

/-!
# What the amounts of the library are worth

The library computes the amounts of a trade from the reserves alone, and the pair
checks a product of its balances. They agree on every amount: the output of the
library is the greatest that the pair pays, and its input is enough for an output
and at most one unit too much.
-/

namespace EnergyChain.Dex

open Library

section Output

variable {c c₁ : Chain} {pair input output sender dst : Address} {view : PairView}
  {block : Block} {callee : World → Except Revert World} {amountIn o : ℕ}

/-- A pair at rest that has received an amount pays out what the library says, or
less, and nothing more. -/
theorem swap_succeeds_iff_le_getAmountOut (hview : c.pairView pair = some view)
    (hopen : view.unlocked = 1) (htrades : view.pool.Trades input output)
    (hreserveIn : 0 < view.reserve input ∧ view.reserve input + amountIn < 2 ^ 112)
    (hreserveOut : 0 < view.reserve output ∧ view.reserve output < 2 ^ 112)
    (hbalanced : c.balanceOf input pair = view.reserve input ∧
      c.balanceOf output pair = view.reserve output)
    (hstandard : Ledger.total (c.balanceOf output) < uint256Size)
    (hamount : 0 < amountIn) (hsender : sender ≠ pair)
    (hpaid : c.transfer input sender pair amountIn = .ok c₁)
    (ho : 0 < o ∧ o < view.reserve output) (hdst : dst ≠ input ∧ dst ≠ output ∧ dst ≠ pair) :
    ∃ amountOut, getAmountOut amountIn (view.reserve input) (view.reserve output) = .ok amountOut ∧
      ((∃ c', (c₁.callPair pair fun pool =>
          pool.swap block (inOrder input view.pool.token0 0 o).1
            (inOrder input view.pool.token0 0 o).2 dst [] callee) = .ok ((), c')) ↔
        o ≤ amountOut) := by
  obtain ⟨hmoved, hsame⟩ := Chain.transfer_moved hpaid
  have hview₁ : c₁.pairView pair = some view := hsame ▸ hview
  have hin : c₁.balanceOf input pair = view.reserve input + amountIn := by
    rw [hmoved.balanceOf_token, Ledger.move_target hsender, hbalanced.1]
  have hout : c₁.balanceOf output pair = view.reserve output := by
    rw [hmoved.balanceOf_of_ne htrades.ne.symm, hbalanced.2]
  have htotal : Ledger.total (c₁.balanceOf output) < uint256Size := by
    rw [hmoved.total]
    exact hstandard
  refine ⟨_, Chain.getAmountOut_eq hamount hreserveIn.1 hreserveOut.1 hreserveIn.2 hreserveOut.2, ?_⟩
  rw [Chain.le_amountOut_iff hreserveIn.1 ho.2.le]
  constructor
  · rintro ⟨c', hrun⟩
    exact Chain.callSwap_kept hview₁ htrades hin hout hdst.2.2 hrun
  · exact Chain.callSwap_succeeds block callee hview₁ htrades hopen hin hout hamount ho.1
      hreserveIn.1 ho.2 hreserveIn.2 hreserveOut.2 hdst htotal

/-- For 1000 of a token the sample pair pays out 906 of the other, and not 907. -/
theorem swap_succeeds_iff_le_getAmountOut_sample :
    ∃ c₁, sampleExchange.transfer ⟨2⟩ ⟨5⟩ ⟨21⟩ 1000 = .ok c₁ ∧
      (∃ c', (c₁.callPair ⟨21⟩ fun pool => pool.swap ⟨0, 1⟩ 0 906 ⟨6⟩ [] .ok) = .ok ((), c')) ∧
      ¬∃ c', (c₁.callPair ⟨21⟩ fun pool => pool.swap ⟨0, 1⟩ 0 907 ⟨6⟩ [] .ok) = .ok ((), c') := by
  have hpaid : ∃ c₁, sampleExchange.transfer ⟨2⟩ ⟨5⟩ ⟨21⟩ 1000 = .ok c₁ := ⟨_, rfl⟩
  obtain ⟨c₁, hpaid⟩ := hpaid
  have hview : sampleExchange.pairView ⟨21⟩ = some ⟨samplePool23, 10000, 10000, 1⟩ := rfl
  have hexact : ∀ o, 0 < o ∧ o < 10000 → ((∃ c', (c₁.callPair ⟨21⟩ fun pool =>
      pool.swap ⟨0, 1⟩ 0 o ⟨6⟩ [] .ok) = .ok ((), c')) ↔ o ≤ 906) := by
    intro o ho
    obtain ⟨amountOut, hquote, hiff⟩ := @swap_succeeds_iff_le_getAmountOut sampleExchange c₁ ⟨21⟩
      ⟨2⟩ ⟨3⟩ ⟨5⟩ ⟨6⟩ _ ⟨0, 1⟩ .ok 1000 o hview rfl (Or.inl ⟨rfl, rfl⟩) (by decide +kernel)
      (by decide +kernel) (by decide +kernel) (sampleExchange_consistent.standard _) (by decide)
      (by decide) hpaid ho (by decide)
    have hvalue : getAmountOut 1000 10000 10000 = .ok 906 := by decide +kernel
    obtain rfl := Except.ok.inj (hvalue.symm.trans hquote)
    exact hiff
  exact ⟨c₁, hpaid, (hexact 906 (by decide)).mpr le_rfl, fun h =>
    absurd ((hexact 907 (by decide)).mp h) (by decide)⟩

end Output

/-! ### The input for an output -/

section Input

variable {amountOut reserveIn reserveOut : ℕ}

theorem getAmountIn_eq (hamount : 0 < amountOut) (hlt : amountOut < reserveOut)
    (hreserveIn : 0 < reserveIn ∧ reserveIn < 2 ^ 112)
    (hreserveOut : reserveOut < 2 ^ 112) :
    getAmountIn amountOut reserveIn reserveOut =
      .ok (ConstantProduct.amountIn 997 1000 amountOut reserveIn reserveOut) := by
  have hproduct : reserveIn * amountOut < uint256Size :=
    mul_lt_uint256 hreserveIn.2 (hlt.trans hreserveOut)
  have hnumerator : reserveIn * amountOut * 1000 < 2 ^ 234 := by
    have hle : reserveIn * amountOut * 1000 ≤ 2 ^ 112 * 2 ^ 112 * 1000 :=
      Nat.mul_le_mul_right 1000 (Nat.mul_le_mul hreserveIn.2.le (hlt.trans hreserveOut).le)
    exact hle.trans_lt (by norm_num)
  have hdenominator : (reserveOut - amountOut) * 997 < uint256Size :=
    mul_lt_uint256 (by omega) (by norm_num)
  have hsum : reserveIn * amountOut * 1000 / ((reserveOut - amountOut) * 997) + 1 < uint256Size := by
    have hle := (Nat.div_le_self _ ((reserveOut - amountOut) * 997)).trans_lt hnumerator
    rw [uint256Size_eq]
    omega
  have hfits : reserveIn * amountOut * 1000 < uint256Size :=
    hnumerator.trans (by norm_num [uint256Size])
  simp only [getAmountIn, except_bind_ok_iff, require_ok_iff, checkedMul_ok_iff, checkedSub_ok_iff,
    checkedAdd_ok_iff, checkedDiv_ok_iff]
  exact ⟨(), hamount, (), ⟨hreserveIn.1, by omega⟩, _, ⟨hproduct, rfl⟩, _, ⟨hfits, rfl⟩, _,
    ⟨hlt.le, rfl⟩, _, ⟨hdenominator, rfl⟩, _, ⟨by omega, rfl⟩, hsum, rfl⟩

theorem getAmountOut_overflowOr {amountIn : ℕ} (hamount : 0 < amountIn) (hreserveIn : 0 < reserveIn)
    (hreserveOut : 0 < reserveOut) :
    OverflowOr (getAmountOut amountIn reserveIn reserveOut)
      (ConstantProduct.amountOut 997 1000 amountIn reserveIn reserveOut) := by
  have hdenominator : reserveIn * 1000 + amountIn * 997 ≠ 0 := by omega
  simp only [getAmountOut, require, if_pos hamount, if_pos (And.intro hreserveIn hreserveOut),
    except_ok_bind]
  exact (OverflowOr.mul _ _).bind <| (OverflowOr.mul _ _).bind <| (OverflowOr.mul _ _).bind <|
    (OverflowOr.add _ _).bind <| Or.inr (checkedDiv_eq hdenominator)

/-- The input of the library for an output is enough for it, and two units less
are not, where the quote for them does not overflow. -/
theorem getAmountIn_inverts_getAmountOut (hamount : 0 < amountOut) (hlt : amountOut < reserveOut)
    (hreserveIn : 0 < reserveIn ∧ reserveIn < 2 ^ 112) (hreserveOut : reserveOut < 2 ^ 112) :
    ∃ a, getAmountIn amountOut reserveIn reserveOut = .ok a ∧
      (getAmountOut a reserveIn reserveOut = .error (.panic 0x11) ∨
        ∃ y, getAmountOut a reserveIn reserveOut = .ok y ∧ amountOut ≤ y) ∧
      ∀ b, 0 < b → b + 2 ≤ a →
        (getAmountOut b reserveIn reserveOut = .error (.panic 0x11) ∨
          ∃ y, getAmountOut b reserveIn reserveOut = .ok y ∧ y < amountOut) := by
  have hpos : 0 < reserveIn * 1000 := by omega
  have hout : 0 < reserveOut := by omega
  refine ⟨_, getAmountIn_eq hamount hlt hreserveIn hreserveOut, ?_, fun b hb hle => ?_⟩
  · refine (getAmountOut_overflowOr ?_ hreserveIn.1 hout).imp_right fun hok => ⟨_, hok, ?_⟩
    · exact Nat.succ_pos _
    · exact ConstantProduct.le_amountOut_amountIn (by decide) hpos hlt
  · refine (getAmountOut_overflowOr hb hreserveIn.1 hout).imp_right fun hok => ⟨_, hok, ?_⟩
    exact ConstantProduct.amountOut_lt_of_add_two_le (by decide) hpos hlt hle

/-- An input of 1000 brings 906, and one of 998 less. -/
theorem getAmountIn_inverts_getAmountOut_sample :
    getAmountIn 906 10000 10000 = .ok 1000 ∧
      (∃ y, getAmountOut 1000 10000 10000 = .ok y ∧ 906 ≤ y) ∧
      ∃ y, getAmountOut 998 10000 10000 = .ok y ∧ y < 906 := by
  have hvalue : getAmountIn 906 10000 10000 = .ok 1000 := by decide +kernel
  obtain ⟨a, ha, henough, hless⟩ := getAmountIn_inverts_getAmountOut (by decide : 0 < 906)
    (by decide : 906 < 10000) (by decide : 0 < 10000 ∧ 10000 < 2 ^ 112) (by decide)
  obtain rfl := Except.ok.inj (hvalue.symm.trans ha)
  refine ⟨hvalue, henough.resolve_left ?_, (hless 998 (by decide) (by decide)).resolve_left ?_⟩
  · decide +kernel
  · decide +kernel

end Input
end EnergyChain.Dex
