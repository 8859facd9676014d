import EnergyChain.Dex.PairFees

/-!
# Adding and removing liquidity

Liquidity that is minted and burned at once is paid back with at most what was put
in, of either token. The fee before the mint only makes the share smaller, and none
is charged before the burn: the product it is measured by was just recorded.
-/

namespace EnergyChain.Dex

variable {pool : Pool} {w w₁ w₂ w₃ : World} {block block' : Block} {dst dst' : Address}
  {l a₀ a₁ : ℕ}

theorem protocolFee_eq_zero {factory : FeeSetting} {p : PairStorage}
    (h : p.kLast = if factory.feeTo = .zero then 0 else p.reserve0 * p.reserve1) :
    protocolFee factory p = 0 := by
  unfold protocolFee
  split_ifs with hset
  · rw [h, if_neg hset.1]
    exact Fund.growthFee_eq_zero _ le_rfl
  · rfl

theorem burn_after_mint (hw : Settled pool w) (hpos : 0 < w.pair.totalSupply)
    (hmint : pool.mint block dst w = .ok (l, w₁)) (hout : Outside pool w₁ w₂)
    (hquiet : w₂.factory = w₁.factory ∧ w₂.token0 = w₁.token0 ∧ w₂.token1 = w₁.token1)
    (hheld : w₂.pair.balanceOf pool.pair = l)
    (hburn : pool.burn block' dst' w₂ = .ok ((a₀, a₁), w₃)) :
    a₀ ≤ pool.balance0 w - w.pair.reserve0 ∧ a₁ ≤ pool.balance1 w - w.pair.reserve1 := by
  obtain ⟨hfactory, htoken₀, htoken₁⟩ := hquiet
  have hevent := pool.mint_event hmint
  have hw₁ := (mint_effect hw hmint).1.settled
  obtain ⟨hsame₀, hsame₁, -⟩ := pool.mint_moves hmint
  obtain ⟨-, -, hshares⟩ := mint_shares hw.last.lt hmint
  obtain ⟨hsupply, hle₀, hle₁⟩ := hshares hpos
  -- The burn charges no fee, so it divides by the supply that the mint has left.
  have hfree : protocolFee w₂.factory w₂.pair = 0 := by
    apply protocolFee_eq_zero
    rw [hout.kLast, hout.reserve0, hout.reserve1, hfactory, hevent.factory]
    exact hevent.kLast
  obtain ⟨-, -, hpaid₀, hpaid₁⟩ := burn_shares (hout.kLast ▸ hw₁.last.lt) hburn
  rw [hfree, Nat.add_zero, hout.supply, hsupply, hheld] at hpaid₀ hpaid₁
  have hbalance₀ : pool.balance0 w₂ = w.pair.reserve0 + (pool.balance0 w - w.pair.reserve0) := by
    rw [Nat.add_sub_cancel' hw.covered0, Pool.balance0, htoken₀, hsame₀, Pool.balance0]
  have hbalance₁ : pool.balance1 w₂ = w.pair.reserve1 + (pool.balance1 w - w.pair.reserve1) := by
    rw [Nat.add_sub_cancel' hw.covered1, Pool.balance1, htoken₁, hsame₁, Pool.balance1]
  rw [hpaid₀, hpaid₁, hbalance₀, hbalance₁]
  exact ⟨Fund.redeemed_le hle₀, Fund.redeemed_le hle₁⟩

/-- Adding and removing liquidity never profits: in every reachable state with
liquidity in circulation, a mint, a call of the liquidity token that leaves the pair
with just the minted liquidity, and a burn pay out at most the amounts that the mint
has credited. -/
theorem mint_burn_never_profits (keccak256 : Bytes → Bytes)
    (ecrecover : Bytes → Signature → Address) (chainid : ℕ) (token0 token1 : TradedToken pool)
    (factory : FeeSetting) (ms : List (Block × Call pool)) (call : TransferCall pool) {t : ERC20}
    {w₁ w₂ : World}
    (hpos : 0 < (reached keccak256 ecrecover chainid token0 token1 factory ms).pair.totalSupply)
    (hmint : pool.mint block dst (reached keccak256 ecrecover chainid token0 token1 factory ms) =
      .ok (l, w₁))
    (hsent : call.apply w₁.pair.toERC20 = .ok t) (hheld : t.balanceOf pool.pair = l)
    (hburn : pool.burn block' dst' (w₁.withPair (w₁.pair.withToken t)) = .ok ((a₀, a₁), w₂)) :
    let w := reached keccak256 ecrecover chainid token0 token1 factory ms
    a₀ ≤ pool.balance0 w - w.pair.reserve0 ∧ a₁ ≤ pool.balance1 w - w.pair.reserve1 := by
  intro w
  have hw := reached_settled keccak256 ecrecover chainid token0 token1 factory ms
  obtain ⟨hkeeps, hsupply⟩ := call.apply_keeps (Or.inl rfl) hsent
  have hout : Outside pool w₁ (w₁.withPair (w₁.pair.withToken t)) :=
    ⟨hsupply, rfl, rfl, rfl, rfl, hkeeps, .refl _ _, .refl _ _⟩
  exact burn_after_mint hw hpos hmint hout ⟨rfl, rfl, rfl⟩ hheld hburn

/-- The state after `sampleGrowth` with the fee on. -/
def sampleGrown : World :=
  reached sampleKeccak256 sampleEcrecover 262144 sampleToken sampleToken ⟨⟨7⟩, ⟨9⟩⟩ sampleGrowth

/-- A mint, the transfer of the minted liquidity to the pair, and a burn; returns the
liquidity, what the pair then has of it, and the two amounts. -/
def sampleRoundTrip : Except Revert (ℕ × ℕ × ℕ × ℕ) := do
  let (l, w₁) ← samplePool.mint ⟨1700000007, 4⟩ ⟨4⟩ sampleGrown
  let t ← (TransferCall.transfer sampleCaller samplePool.pair l).apply w₁.pair.toERC20
  let (amounts, _) ← samplePool.burn ⟨1700000008, 5⟩ ⟨4⟩ (w₁.withPair (w₁.pair.withToken t))
  return (l, t.balanceOf samplePool.pair, amounts)

/-- The liquidity for 1210 and 1000 brings back 1209 and 999. -/
theorem mint_burn_never_profits_sample :
    sampleRoundTrip = .ok (1015, 1015, 1209, 999) ∧
      1209 ≤ samplePool.balance0 sampleGrown - sampleGrown.pair.reserve0 ∧
      999 ≤ samplePool.balance1 sampleGrown - sampleGrown.pair.reserve1 := by
  have hrun : sampleRoundTrip = .ok (1015, 1015, 1209, 999) := by decide +kernel
  refine ⟨hrun, ?_⟩
  simp only [sampleRoundTrip, except_bind_ok_iff, except_pure_ok_iff, Prod.mk.injEq] at hrun
  obtain ⟨⟨l, w₁⟩, hmint, t, hsent, ⟨⟨a₀, a₁⟩, w₂⟩, hburn, hl, hheld, rfl, rfl⟩ := hrun
  exact mint_burn_never_profits sampleKeccak256 sampleEcrecover 262144 sampleToken sampleToken
    ⟨⟨7⟩, ⟨9⟩⟩ sampleGrowth _ (by decide +kernel) hmint hsent (hheld.trans hl.symm) hburn

end EnergyChain.Dex
