import EnergyChain.Dex.PairArithmetic

/-!
# Safety of a pair over all runs

For every sequence of transactions from the deployment of a pair: the
accounting of reserves and liquidity stays sound whatever the fee setting
does, and without a fee the value of a liquidity share never falls.
-/

namespace EnergyChain.Dex

variable {pool : Pool}

/-- What holds of a pair in every state that transactions lead to. -/
structure PairInvariant (pool : Pool) (w : World) : Prop where
  supply : ∑ a, w.pair.balanceOf a = w.pair.totalSupply
  minimum : w.pair.totalSupply = 0 ∨
    1000 ≤ w.pair.totalSupply ∧ 1000 ≤ w.pair.balanceOf .zero
  backed : w.pair.totalSupply ^ 2 ≤ w.pair.reserve0 * w.pair.reserve1
  covered0 : w.pair.reserve0 ≤ w.token0.balanceOf pool.pair
  covered1 : w.pair.reserve1 ≤ w.token1.balanceOf pool.pair
  bounded0 : w.pair.reserve0 < 2 ^ 112
  bounded1 : w.pair.reserve1 < 2 ^ 112
  positive : 0 < w.pair.totalSupply → 0 < w.pair.reserve0 ∧ 0 < w.pair.reserve1
  feeSucceeds : ∃ r, mintFee w.factory w.pair.reserve0 w.pair.reserve1 w.pair = .ok r
  noPanic : 0 < w.pair.totalSupply → w.token0.balanceOf pool.pair < 2 ^ 112 →
    w.token1.balanceOf pool.pair < 2 ^ 112 → ∀ block dst,
      NoPanic (pool.mint block dst w) ∧ NoPanic (pool.burn block dst w)

theorem Settled.pairInvariant {w : World} (hw : Settled pool w) : PairInvariant pool w where
  supply := hw.sound.conserved
  minimum := by
    refine hw.sound.minimum.imp_right fun hmin => ⟨?_, hmin⟩
    exact hmin.trans (ERC20.balanceOf_le_totalSupply hw.sound.conserved .zero)
  backed := hw.sound.backed
  covered0 := hw.covered0
  covered1 := hw.covered1
  bounded0 := hw.sound.bounded0
  bounded1 := hw.sound.bounded1
  positive := hw.sound.reserves_pos
  feeSucceeds := mintFee_succeeds hw.sound hw.last w.factory
  noPanic hpos h₀ h₁ block dst :=
    ⟨noPanic_poolMint ⟨hw, hpos, h₀, h₁⟩ block dst, noPanic_poolBurn ⟨hw, hpos, h₀, h₁⟩ block dst⟩

section Runs

variable (keccak256 : Bytes → Bytes) (ecrecover : Bytes → Signature → Address) (chainid : ℕ)
  (token0 token1 : TradedToken pool) (factory : FeeSetting)

def reached (ms : List (Block × Call pool)) : World :=
  (deliver keccak256 ecrecover).run (.deployed keccak256 chainid token0 token1 factory) ms

theorem reached_settled (ms : List (Block × Call pool)) :
    Settled pool (reached keccak256 ecrecover chainid token0 token1 factory ms) :=
  (run_settled keccak256 ecrecover
    (deployed_settled keccak256 chainid token0 token1 factory) ms).1

/-- The invariant of every reachable state; liquidity once minted leaves the
minimum with the zero address for ever. -/
theorem pair_invariant (ms : List (Block × Call pool)) :
    PairInvariant pool (reached keccak256 ecrecover chainid token0 token1 factory ms) ∧
    ∀ pre post, ms = pre ++ post →
      (reached keccak256 ecrecover chainid token0 token1 factory pre).pair.totalSupply ≠ 0 →
      1000 ≤ (reached keccak256 ecrecover chainid token0 token1 factory ms).pair.totalSupply ∧
      1000 ≤ (reached keccak256 ecrecover chainid token0 token1 factory ms).pair.balanceOf
        .zero := by
  have hms := reached_settled keccak256 ecrecover chainid token0 token1 factory ms
  refine ⟨hms.pairInvariant, ?_⟩
  rintro pre post rfl hne
  have hpre := reached_settled keccak256 ecrecover chainid token0 token1 factory pre
  obtain ⟨-, hzero, -⟩ := run_settled keccak256 ecrecover hpre post
  have hmin : 1000 ≤
      (reached keccak256 ecrecover chainid token0 token1 factory (pre ++ post)).pair.balanceOf
        .zero := by
    rw [reached, Handler.run_append]
    exact (hpre.sound.minimum.resolve_left hne).trans hzero
  exact ⟨hmin.trans (ERC20.balanceOf_le_totalSupply hms.sound.conserved .zero), hmin⟩

/-- The value of a liquidity share never falls while no fee is taken, whatever
the transaction. -/
theorem share_value_never_falls (ms : List (Block × Call pool)) (m : Block × Call pool) :
    let w := reached keccak256 ecrecover chainid token0 token1 factory ms
    let w' := reached keccak256 ecrecover chainid token0 token1 factory (ms ++ [m])
    w.factory.feeTo = .zero → 0 < w.pair.totalSupply →
      w.pair.reserve0 * w.pair.reserve1 * w'.pair.totalSupply ^ 2 ≤
        w'.pair.reserve0 * w'.pair.reserve1 * w.pair.totalSupply ^ 2 := by
  intro w w' hfree hpos
  have hsettled := reached_settled keccak256 ecrecover chainid token0 token1 factory ms
  have hw' : w' = (deliver keccak256 ecrecover w m).1 := Handler.run_append _ _ ms [m]
  rw [hw']
  rcases deliver_cases keccak256 ecrecover w m with ⟨-, hsame⟩ | ⟨-, hok⟩
  · rw [hsame]
  · exact (execute_effect keccak256 ecrecover hsettled hok).1.notDiluted hfree hpos

end Runs

/-! ### A flash swap -/

/-- A pair at address one for the tokens at two and three. -/
def samplePool : Pool :=
  { pair := ⟨1⟩, token0 := ⟨2⟩, token1 := ⟨3⟩, pair_ne_zero := by decide
    token0_ne_zero := by decide, token0_lt_token1 := by decide, pair_ne_token0 := by decide
    pair_ne_token1 := by decide }

def sampleCaller : Caller samplePool :=
  { address := ⟨4⟩, ne_zero := by decide, ne_pair := by decide }

def sampleToken : TradedToken samplePool :=
  { token := { ERC20.initial with
      totalSupply := 1000000, balanceOf := Function.update (fun _ => 0) ⟨4⟩ 1000000 }
    unapproved := fun _ => rfl }

def transferToPool (value : ℕ) : TokenCall samplePool :=
  .erc20 (.transfer sampleCaller samplePool.pair value)

/-- The first mint, of ten thousand of either token. -/
def sampleMint : List (Block × Call samplePool) :=
  [(⟨1700000000, 1⟩, .token0 (transferToPool 10000)),
    (⟨1700000000, 1⟩, .token1 (transferToPool 10000)), (⟨1700000000, 1⟩, .mint ⟨4⟩)]

/-- The output is paid for in the callback. -/
def sampleFlashSwap : Call samplePool :=
  .swap 0 900 ⟨5⟩ (ascii "data") [.token0 (transferToPool 1000)]

/-- A stand-in for the hash and the signature check; nothing here is signed. -/
def sampleKeccak256 : Bytes → Bytes := fun _ => List.replicate 32 0

def sampleEcrecover : Bytes → Signature → Address := fun _ _ => .zero

def sampleReached (ms : List (Block × Call samplePool)) : World :=
  reached sampleKeccak256 sampleEcrecover 262144 sampleToken sampleToken ⟨.zero, ⟨9⟩⟩ ms

theorem share_value_sampleFlashSwap :
    let w := sampleReached sampleMint
    let w' := sampleReached (sampleMint ++ [(⟨1700000005, 2⟩, sampleFlashSwap)])
    w'.pair.reserve0 = 11000 ∧ w'.pair.reserve1 = 9100 ∧
      w.pair.reserve0 * w.pair.reserve1 * w'.pair.totalSupply ^ 2 ≤
        w'.pair.reserve0 * w'.pair.reserve1 * w.pair.totalSupply ^ 2 :=
  ⟨by decide +kernel, by decide +kernel,
    share_value_never_falls sampleKeccak256 sampleEcrecover 262144 sampleToken sampleToken
      ⟨.zero, ⟨9⟩⟩ sampleMint (⟨1700000005, 2⟩, sampleFlashSwap) (by decide +kernel)
      (by decide +kernel)⟩

end EnergyChain.Dex
