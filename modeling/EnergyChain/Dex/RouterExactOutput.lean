import EnergyChain.Dex.PathQuotes
import EnergyChain.Dex.RouterEmptied

/-!
# Swaps for an exact output

The library computes the amounts of a path from its end, and rounds each of them up.
Every pair then pays what the next one needs, so that the recipient gets exactly
what was asked for, and what a pair is paid too much stays with it.
-/

namespace EnergyChain.Dex

open Library

variable {d : Deployment} {block : Block} {c : Chain} {sender dst first token : Address}
  {path : List Address} {amounts : List ℕ} {amountIn amountOut amountInMax deadline : ℕ}

/-- A swap for an exact output along a path of different pairs succeeds with the
amounts of the library, and gives the recipient just the output. -/
theorem swapTokensForExactTokens_exact (hc : c.Consistent)
    (hamounts : getAmountsIn c amountOut path = .ok amounts)
    (hfirst : path.head? = some first) (htoken : path.getLast? = some token)
    (hpaid : amounts.head? = some amountIn) (hmax : amountIn ≤ amountInMax)
    (hdeadline : block.timestamp ≤ deadline) (hrouted : c.Routed path amounts dst)
    (hbalanced : ∀ hop ∈ hops path, c.Balanced hop) (hsender : sender ∉ c.pools path)
    (hfunds : amountIn ≤ c.balanceOf first sender)
    (hallowed : amountIn ≤ c.allowance first sender d.router) (hdst : dst ≠ sender) :
    ∃ c', Router.swapTokensForExactTokens d block sender amountOut amountInMax path dst deadline c =
        .ok (amounts, c') ∧ RouteTraded path first token sender dst amountIn amountOut c c' := by
  have hread := hamounts
  simp only [getAmountsIn, except_bind_ok_iff, require_ok_iff] at hread
  obtain ⟨-, hlength, hread⟩ := hread
  obtain ⟨hpayable, hlast⟩ := Chain.payable_of_amountsIn (by rintro rfl; simp at hlength) hread
  obtain ⟨c₁, c', hpay, hrun, htraded⟩ := trade_payable d block hc hpayable hlength hfirst htoken
    hpaid hlast hrouted hbalanced hsender hfunds hallowed hdst
  have hindex : index amounts 0 = .ok amountIn := by
    obtain ⟨amounts, rfl⟩ := List.head?_eq_some_iff.mp hpaid
    rfl
  refine ⟨c', ?_, htraded⟩
  simp only [Router.swapTokensForExactTokens, Router.ensure, except_bind_ok_iff, require_ok_iff,
    except_pure_ok_iff]
  exact ⟨(), hdeadline, amounts, hamounts, amountIn, hindex, (), hmax, c₁, hpay, c', hrun, rfl⟩

/-- For 828 of the third token the sender pays 1000 of the first. -/
theorem swapTokensForExactTokens_sample :
    ∃ c', Router.swapTokensForExactTokens sampleDeployment ⟨0, 1⟩ ⟨5⟩ 828 1000 [⟨2⟩, ⟨3⟩, ⟨4⟩] ⟨6⟩ 0
        sampleExchange = .ok ([1000, 906, 828], c') ∧
      RouteTraded [⟨2⟩, ⟨3⟩, ⟨4⟩] ⟨2⟩ ⟨4⟩ ⟨5⟩ ⟨6⟩ 1000 828 sampleExchange c' := by
  have hamounts : getAmountsIn sampleExchange 828 [⟨2⟩, ⟨3⟩, ⟨4⟩] = .ok [1000, 906, 828] := by
    decide +kernel
  have hallowed : 1000 ≤ sampleExchange.allowance ⟨2⟩ ⟨5⟩ sampleDeployment.router := by
    decide +kernel
  have hrouted : sampleExchange.Routed [⟨2⟩, ⟨3⟩, ⟨4⟩] [1000, 906, 828] ⟨6⟩ := by
    constructor
    · decide +kernel
    · decide +kernel
    · decide +kernel
    · have hpair : pairFor sampleExchange ⟨3⟩ ⟨4⟩ ≠ ⟨2⟩ := by decide +kernel
      simpa [hops] using hpair
    · decide +kernel
  apply swapTokensForExactTokens_exact sampleExchange_consistent hamounts rfl rfl rfl le_rfl
    (le_refl 0) hrouted _ (by decide +kernel) (by decide +kernel) hallowed (by decide)
  exact forall_mem_hops (by decide +kernel) (by decide +kernel)

end EnergyChain.Dex
