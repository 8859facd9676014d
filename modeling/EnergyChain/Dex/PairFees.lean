import EnergyChain.Dex.PairPrices

/-!
# The protocol fee of a pair

Mints and burns begin with the fee on the growth since the last of them, which
`kLast` remembers. The fee is at most one sixth of the growth, and in no run does it
lower the root of the reserves for a share below what it was after the last mint
or burn.
-/

namespace EnergyChain.Dex

variable {pool : Pool} {w w' : World} {block : Block} {dst : Address} {p p' : PairStorage}
  {factory : FeeSetting} {feeOn : Bool} {r₀ r₁ a₀ a₁ l : ℕ}

/-! ### The liquidity that mints and burns charge, give and take -/

def protocolFee (factory : FeeSetting) (p : PairStorage) : ℕ :=
  if factory.feeTo ≠ .zero ∧ p.kLast ≠ 0 then
    Fund.growthFee p.totalSupply (Nat.sqrt (p.reserve0 * p.reserve1)) (Nat.sqrt p.kLast)
  else 0

theorem mintPositive_credits (h : mintPositive dst l p = .ok p') :
    p'.totalSupply = p.totalSupply + l ∧ p'.balanceOf = Ledger.credit p.balanceOf dst l := by
  unfold mintPositive at h
  split_ifs at h with hpos
  · simp only [except_bind_ok_iff, except_pure_ok_iff] at h
    obtain ⟨t, hmint, rfl⟩ := h
    obtain ⟨-, -, rfl⟩ := ERC20.mint_ok_iff.mp hmint
    exact ⟨rfl, rfl⟩
  · obtain rfl := Except.ok.inj h
    have hzero : l = 0 := by omega
    simp [hzero, Ledger.credit]

theorem mintGrowthFee_credits (hlast : p.kLast < uint256Size)
    (h : mintGrowthFee dst r₀ r₁ p = .ok p') :
    p'.totalSupply = p.totalSupply +
      Fund.growthFee p.totalSupply (Nat.sqrt (r₀ * r₁)) (Nat.sqrt p.kLast) ∧
    p'.balanceOf = Ledger.credit p.balanceOf dst
      (Fund.growthFee p.totalSupply (Nat.sqrt (r₀ * r₁)) (Nat.sqrt p.kLast)) := by
  simp only [mintGrowthFee, except_bind_ok_iff, checkedMul_ok_iff, sqrt_eq hlast] at h
  obtain ⟨_, ⟨hk, rfl⟩, rootK, hroot, _, hrootLast, h⟩ := h
  obtain rfl := Except.ok.inj hrootLast
  obtain rfl := Except.ok.inj ((sqrt_eq hk).symm.trans hroot)
  split_ifs at h with hgrowth
  · rw [except_bind_ok_iff] at h
    obtain ⟨liquidity, hfee, hmint⟩ := h
    rw [← feeLiquidity_ok hfee]
    exact mintPositive_credits hmint
  · obtain rfl := Except.ok.inj h
    rw [Fund.growthFee_eq_zero _ (Nat.not_lt.mp hgrowth)]
    simp [Ledger.credit]

theorem mintFee_charges (hlast : p.kLast < uint256Size)
    (h : mintFee factory p.reserve0 p.reserve1 p = .ok (feeOn, p')) :
    p'.totalSupply = p.totalSupply + protocolFee factory p ∧
      p'.balanceOf = Ledger.credit p.balanceOf factory.feeTo (protocolFee factory p) := by
  unfold protocolFee
  unfold mintFee at h
  split_ifs at h with hon hk hk
  · simp only [except_bind_ok_iff, except_pure_ok_iff, Prod.mk.injEq] at h
    obtain ⟨_, hmint, -, rfl⟩ := h
    rw [if_pos ⟨hon, hk⟩]
    exact mintGrowthFee_credits hlast hmint
  · simp only [except_bind_ok_iff, except_pure_ok_iff, Prod.mk.injEq] at h
    obtain ⟨_, hsame, -, rfl⟩ := h
    obtain rfl := Except.ok.inj hsame
    simp [hk, Ledger.credit]
  · obtain ⟨-, rfl⟩ := Prod.mk.inj (Except.ok.inj h)
    simp [hon, Ledger.credit]
  · obtain ⟨-, rfl⟩ := Prod.mk.inj (Except.ok.inj h)
    simp [hon, Ledger.credit]

/-- A mint of `l` after the fee: with liquidity in circulation, at most its share of
either amount. -/
theorem mint_shares (hlast : w.pair.kLast < uint256Size)
    (h : pool.mint block dst w = .ok (l, w')) :
    0 < l ∧ l ≤ w'.pair.totalSupply ∧
      (0 < w.pair.totalSupply → w'.pair.totalSupply =
          w.pair.totalSupply + protocolFee w.factory w.pair + l ∧
        l * w.pair.reserve0 ≤ (pool.balance0 w - w.pair.reserve0) *
          (w.pair.totalSupply + protocolFee w.factory w.pair) ∧
        l * w.pair.reserve1 ≤ (pool.balance1 w - w.pair.reserve1) *
          (w.pair.totalSupply + protocolFee w.factory w.pair)) := by
  obtain ⟨-, w₁, hbody, rfl⟩ := lock_ok h
  dsimp only at hbody
  simp only [except_bind_ok_iff, checkedSub_ok_iff, require_ok_iff, except_pure_ok_iff,
    Prod.mk.injEq] at hbody
  obtain ⟨_, ⟨-, rfl⟩, _, ⟨-, rfl⟩, ⟨feeOn, p₁⟩, hfee, ⟨l, p₂⟩, hliquidity, -, hpos, t, hmint, p₃,
    hupdate, p₄, hrecord, rfl, rfl⟩ := hbody
  dsimp only at hfee hliquidity hpos hmint hupdate hrecord
  have hcharged := (mintFee_charges (p := (w.setUnlocked 0).pair) hlast hfee).1
  have hstored : p₄.totalSupply = p₂.totalSupply + l := by
    have htoken := (recordK_keeps hrecord).1.trans (update_ok hupdate).2.2.1
    rw [htoken]
    exact ERC20.mint_totalSupply hmint
  refine ⟨hpos, (Nat.le_add_left _ _).trans hstored.ge, fun hsupply => ?_⟩
  have hne : p₁.totalSupply ≠ 0 := by
    rw [hcharged]
    exact (Nat.lt_of_lt_of_le hsupply (Nat.le_add_right _ _)).ne'
  obtain ⟨rfl, hle₀, hle₁⟩ := mintLiquidity_later hne hliquidity
  rw [hcharged] at hstored hle₀ hle₁
  exact ⟨hstored, hle₀, hle₁⟩

/-- A burn after the fee pays the share of either balance that the liquidity of the
pair is. -/
theorem burn_shares (hlast : w.pair.kLast < uint256Size)
    (h : pool.burn block dst w = .ok ((a₀, a₁), w')) :
    0 < w.pair.totalSupply + protocolFee w.factory w.pair ∧
    w'.pair.totalSupply + w.pair.balanceOf pool.pair =
      w.pair.totalSupply + protocolFee w.factory w.pair ∧
    a₀ = w.pair.balanceOf pool.pair * pool.balance0 w /
      (w.pair.totalSupply + protocolFee w.factory w.pair) ∧
    a₁ = w.pair.balanceOf pool.pair * pool.balance1 w /
      (w.pair.totalSupply + protocolFee w.factory w.pair) := by
  obtain ⟨-, w₁, hbody, rfl⟩ := lock_ok h
  dsimp only at hbody
  simp only [except_bind_ok_iff, checkedMul_ok_iff, checkedDiv_ok_iff, except_pure_ok_iff,
    Prod.mk.injEq] at hbody
  obtain ⟨⟨feeOn, p₁⟩, hfee, _, ⟨-, rfl⟩, _, ⟨hne, rfl⟩, _, ⟨-, rfl⟩, _, ⟨-, rfl⟩, -, -, t, hburn,
    token0, -, token1, -, p₂, hupdate, p₃, hrecord, ⟨rfl, rfl⟩, rfl⟩ := hbody
  dsimp only at hfee hne hburn hupdate hrecord
  have hcharged : p₁.totalSupply = w.pair.totalSupply + protocolFee w.factory w.pair :=
    (mintFee_charges (p := (w.setUnlocked 0).pair) hlast hfee).1
  obtain ⟨-, hle, rfl⟩ := ERC20.burn_ok_iff.mp hburn
  have hstored : p₃.totalSupply = p₁.totalSupply - w.pair.balanceOf pool.pair := by
    have htoken := (recordK_keeps hrecord).1.trans (update_ok hupdate).2.2.1
    rw [htoken]
    rfl
  rw [← hcharged]
  refine ⟨Nat.pos_of_ne_zero hne, ?_, rfl, rfl⟩
  change p₃.totalSupply + _ = _
  rw [hstored]
  exact Nat.sub_add_cancel hle

/-! ### What is remembered of the last mint or burn -/

/-- The remembered product has not been lost, and with it liquidity has stayed in
circulation. -/
structure LastKept (w : World) : Prop where
  le_product : w.pair.kLast ≤ w.pair.reserve0 * w.pair.reserve1
  supply_pos : w.pair.kLast ≠ 0 → 0 < w.pair.totalSupply

theorem supply_pos_of_effect (hw : Settled pool w) (heffect : Effect pool w w')
    (hpos : 0 < w.pair.totalSupply) : 0 < w'.pair.totalSupply := by
  have hkept : minimumLiquidity ≤ w'.pair.balanceOf .zero :=
    (hw.sound.minimum.resolve_left hpos.ne').trans heffect.zeroBalance
  have hle := ERC20.balanceOf_le_totalSupply heffect.settled.sound.conserved .zero
  exact (show 0 < minimumLiquidity by decide).trans_le (hkept.trans hle)

section Execution

variable {keccak256 : Bytes → Bytes} {ecrecover : Bytes → Signature → Address} {c : Call pool}

theorem supply_pos_of_movesLiquidity (hw : Settled pool w) (hc : c.movesLiquidity = true)
    (h : execute keccak256 ecrecover block c w = .ok w') : 0 < w'.pair.totalSupply := by
  have heffect := (execute_effect keccak256 ecrecover hw h).1
  cases c <;> simp only [execute, except_bind_ok_iff, except_pure_ok_iff] at h
  case mint dst =>
    obtain ⟨⟨l, _⟩, h, rfl⟩ := h
    obtain ⟨hpos, hle, -⟩ := mint_shares hw.last.lt h
    exact hpos.trans_le hle
  case burn dst =>
    obtain ⟨⟨⟨_, _⟩, _⟩, h, rfl⟩ := h
    have hcharged := (burn_shares hw.last.lt h).1
    refine supply_pos_of_effect hw heffect (Nat.pos_of_ne_zero fun hzero => ?_)
    simp [protocolFee, Fund.growthFee, hzero] at hcharged
  all_goals cases hc

theorem execute_lastKept (hw : Settled pool w) (hk : LastKept w)
    (h : execute keccak256 ecrecover block c w = .ok w') : LastKept w' := by
  have heffect := (execute_effect keccak256 ecrecover hw h).1
  cases execute_recorded hw h with
  | event hc hevent =>
    refine ⟨?_, fun _ => supply_pos_of_movesLiquidity hw hc h⟩
    rw [hevent.kLast]
    split_ifs
    · exact Nat.zero_le _
    · exact le_rfl
  | trade _ _ htraded =>
    refine ⟨htraded.kLast.le.trans (hk.le_product.trans htraded.product_le), fun hne => ?_⟩
    exact supply_pos_of_effect hw heffect (hk.supply_pos (htraded.kLast ▸ hne))
  | quiet _ hquiet hlast =>
    refine ⟨?_, fun hne => supply_pos_of_effect hw heffect (hk.supply_pos (hlast ▸ hne))⟩
    rw [hlast, hquiet.reserve0, hquiet.reserve1]
    exact hk.le_product

end Execution

section Runs

variable (keccak256 : Bytes → Bytes) (ecrecover : Bytes → Signature → Address)

/-- The transaction is a mint or a burn and goes through. -/
def LiquidityMoved (w : World) (m : Block × Call pool) : Prop :=
  (deliver keccak256 ecrecover).Accepts w m ∧ m.2.movesLiquidity = true

instance (w : World) (m : Block × Call pool) :
    Decidable (LiquidityMoved keccak256 ecrecover w m) := instDecidableAnd

/-- The states right after the mints and burns of a run. -/
def liquidityEvents (w : World) : List (Block × Call pool) → List World
  | [] => []
  | m :: ms =>
    (if LiquidityMoved keccak256 ecrecover w m then [(deliver keccak256 ecrecover w m).1] else []) ++
      liquidityEvents (deliver keccak256 ecrecover w m).1 ms

/-- `kLast` is clear, or the product of the reserves right after the last mint or
burn. -/
def Remembers (w : World) (last : Option World) : Prop :=
  w.pair.kLast ≠ 0 → ∃ v, last = some v ∧ w.pair.kLast = v.pair.reserve0 * v.pair.reserve1

/-- One transaction; the state after it counts as the last event when it is one. -/
theorem deliver_remembers {w : World} (hw : Settled pool w) {last : Option World}
    (hlast : Remembers w last) (m : Block × Call pool) :
    Remembers (deliver keccak256 ecrecover w m).1
      (if LiquidityMoved keccak256 ecrecover w m then some (deliver keccak256 ecrecover w m).1
        else last) := by
  rcases deliver_cases keccak256 ecrecover w m with ⟨hrejected, hsame⟩ | ⟨haccepted, h⟩
  · rw [if_neg fun hmoved => hrejected hmoved.1, hsame]
    exact hlast
  · intro hne
    cases execute_recorded hw h with
    | event hc hevent =>
      rw [if_pos ⟨haccepted, hc⟩]
      refine ⟨_, rfl, ?_⟩
      rw [hevent.kLast] at hne ⊢
      split_ifs at hne ⊢
      · exact absurd rfl hne
      · rfl
    | trade hc hm htraded =>
      rw [if_neg fun hmoved => absurd hmoved.2 (by simp [hm]), htraded.kLast]
      exact hlast (htraded.kLast ▸ hne)
    | quiet hc _ hkept =>
      have hm : m.2.movesLiquidity = false := by
        cases hm : m.2 <;> simp_all [Call.movesLiquidity, Call.updates]
      rw [if_neg fun hmoved => absurd hmoved.2 (by simp [hm]), hkept]
      exact hlast (hkept ▸ hne)

theorem run_remembers {w : World} (hw : Settled pool w) {last : Option World}
    (hlast : Remembers w last) (ms : List (Block × Call pool)) :
    Remembers ((deliver keccak256 ecrecover).run w ms)
      ((liquidityEvents keccak256 ecrecover w ms).getLast?.or last) := by
  induction ms generalizing w last with
  | nil => exact hlast
  | cons m ms ih =>
    have hnext := ih (deliver_effect keccak256 ecrecover hw m).1
      (deliver_remembers keccak256 ecrecover hw hlast m)
    rw [Handler.run_cons, liquidityEvents, List.getLast?_append]
    split_ifs at hnext ⊢
    · rw [Option.or_assoc]
      exact hnext
    · rw [List.getLast?_nil, Option.or_none]
      exact hnext

theorem run_lastKept {w : World} (hw : Settled pool w) (hk : LastKept w)
    (ms : List (Block × Call pool)) :
    Settled pool ((deliver keccak256 ecrecover).run w ms) ∧
      LastKept ((deliver keccak256 ecrecover).run w ms) := by
  refine (deliver keccak256 ecrecover).run_invariant
    (P := fun w => Settled pool w ∧ LastKept w) ms ⟨hw, hk⟩ ?_
  rintro w ⟨hw, hk⟩ m -
  refine ⟨(deliver_effect keccak256 ecrecover hw m).1, ?_⟩
  rcases deliver_cases keccak256 ecrecover w m with ⟨-, hsame⟩ | ⟨-, h⟩
  · rwa [hsame]
  · exact execute_lastKept hw hk h

/-! ### The bound on the fee -/

/-- A mint or a burn that charges `fee` before it gives or takes liquidity of its
own. -/
inductive Charged (pool : Pool) (block : Block) (w w' : World) (fee : ℕ) : Prop where
  | mint (dst : Address) (l : ℕ) (h : pool.mint block dst w = .ok (l, w'))
      (hsupply : w'.pair.totalSupply = w.pair.totalSupply + fee + l)
  | burn (dst : Address) (amounts : ℕ × ℕ) (h : pool.burn block dst w = .ok (amounts, w'))
      (hsupply : w'.pair.totalSupply + w.pair.balanceOf pool.pair = w.pair.totalSupply + fee)

/-- The fee is minted by the `_mintFee` that the call begins with, and to `feeTo`
only. -/
structure FeeMintedTo (w : World) (fee : ℕ) : Prop where
  minted : ∃ p, mintFee w.factory w.pair.reserve0 w.pair.reserve1 (w.setUnlocked 0).pair =
    .ok (true, p) ∧ p.totalSupply = w.pair.totalSupply + fee ∧
      p.balanceOf = Ledger.credit w.pair.balanceOf w.factory.feeTo fee

theorem charged_of_movesLiquidity {w w' : World} {m : Block × Call pool}
    (hlast : w.pair.kLast < uint256Size) (hpos : 0 < w.pair.totalSupply)
    (hm : m.2.movesLiquidity = true)
    (h : execute keccak256 ecrecover m.1 m.2 w = .ok w') :
    Charged pool m.1 w w' (protocolFee w.factory w.pair) := by
  obtain ⟨block, c⟩ := m
  cases c <;> simp only [execute, except_bind_ok_iff, except_pure_ok_iff] at h
  case mint dst =>
    obtain ⟨⟨l, _⟩, h, rfl⟩ := h
    obtain ⟨-, -, hshares⟩ := mint_shares hlast h
    exact .mint dst l h (hshares hpos).1
  case burn dst =>
    obtain ⟨⟨⟨_, _⟩, _⟩, h, rfl⟩ := h
    exact .burn dst _ h (burn_shares hlast h).2.1
  all_goals cases hm

theorem feeMintedTo {w : World} (hw : Settled pool w) (hon : w.factory.feeTo ≠ .zero) :
    FeeMintedTo w (protocolFee w.factory w.pair) := by
  obtain ⟨⟨feeOn, p⟩, hfee⟩ := mintFee_succeeds (hw.setUnlocked 0).sound (hw.setUnlocked 0).last
    w.factory
  obtain ⟨hsupply, hbalance⟩ := mintFee_charges (p := (w.setUnlocked 0).pair) hw.last.lt hfee
  rcases (mintFee_quiet hfee).2 with ⟨-, rfl, -⟩ | ⟨hoff, -⟩
  · exact ⟨p, hfee, hsupply, hbalance⟩
  · exact absurd hoff hon

/-- Whenever a mint or a burn goes through with the fee on and `kLast` set, `kLast`
is the product of the reserves right after the last mint or burn, and the fee is
at most one sixth of the growth since then. -/
theorem protocol_fee_bounded (chainid : ℕ) (token0 token1 : TradedToken pool)
    (factory : FeeSetting) (ms : List (Block × Call pool)) (m : Block × Call pool) :
    let w₀ := World.deployed keccak256 chainid token0 token1 factory
    let w := reached keccak256 ecrecover chainid token0 token1 factory ms
    let w' := reached keccak256 ecrecover chainid token0 token1 factory (ms ++ [m])
    LiquidityMoved keccak256 ecrecover w m → w.factory.feeTo ≠ .zero → w.pair.kLast ≠ 0 →
      (∃ v, (liquidityEvents keccak256 ecrecover w₀ ms).getLast? = some v ∧
        w.pair.kLast = v.pair.reserve0 * v.pair.reserve1) ∧
      ∃ fee, Charged pool m.1 w w' fee ∧ FeeMintedTo w fee ∧
        let rootK := Nat.sqrt (w.pair.reserve0 * w.pair.reserve1)
        let rootKLast := Nat.sqrt w.pair.kLast
        (rootK > rootKLast →
          6 * rootK * fee ≤ (w.pair.totalSupply + fee) * (rootK - rootKLast)) ∧
        (rootK ≤ rootKLast → fee = 0) ∧
        (w.pair.totalSupply + fee) * rootKLast ≤ w.pair.totalSupply * rootK := by
  intro w₀ w w' hmoved hon hset
  have hnew : Settled pool w₀ := deployed_settled keccak256 chainid token0 token1 factory
  obtain ⟨hw, hkept⟩ : Settled pool w ∧ LastKept w :=
    run_lastKept keccak256 ecrecover hnew ⟨le_rfl, fun hne => absurd rfl hne⟩ ms
  have hremembers : Remembers w ((liquidityEvents keccak256 ecrecover w₀ ms).getLast?.or none) :=
    run_remembers keccak256 ecrecover hnew (fun hne => absurd rfl hne) ms
  rw [Option.or_none] at hremembers
  have hstep : execute keccak256 ecrecover m.1 m.2 w = .ok w' := by
    have hw' : w' = (deliver keccak256 ecrecover w m).1 := Handler.run_append _ _ ms [m]
    rw [hw']
    rcases deliver_cases keccak256 ecrecover w m with ⟨hrejected, -⟩ | ⟨-, h⟩
    · exact absurd hmoved.1 hrejected
    · exact h
  have hcharged := charged_of_movesLiquidity keccak256 ecrecover hw.last.lt
    (hkept.supply_pos hset) hmoved.2 hstep
  have hminted := feeMintedTo hw hon
  have hfee : protocolFee w.factory w.pair = Fund.growthFee w.pair.totalSupply
      (Nat.sqrt (w.pair.reserve0 * w.pair.reserve1)) (Nat.sqrt w.pair.kLast) :=
    if_pos ⟨hon, hset⟩
  rw [hfee] at hcharged hminted
  exact ⟨hremembers hset, _, hcharged, hminted, fun _ => Fund.six_mul_growthFee_le _ _ _,
    fun hle => Fund.growthFee_eq_zero _ hle,
    Fund.add_growthFee_mul_le _ (Nat.sqrt_le_sqrt hkept.le_product)⟩

end Runs

/-- The root of the product grows from 10000 to 11000; then ten percent are added. -/
def sampleGrowth : List (Block × Call samplePool) :=
  sampleMint ++ [(⟨1700000005, 2⟩, .token0 (transferToPool 2100)), (⟨1700000005, 2⟩, .sync),
    (⟨1700000006, 3⟩, .token0 (transferToPool 1210)),
    (⟨1700000006, 3⟩, .token1 (transferToPool 1000))]

/-- The bounds on what the next mint charges. -/
theorem protocol_fee_bounded_sample :
    let w := reached sampleKeccak256 sampleEcrecover 262144 sampleToken sampleToken ⟨⟨7⟩, ⟨9⟩⟩
      sampleGrowth
    ∃ fee, FeeMintedTo w fee ∧ 6 * 11000 * fee ≤ (10000 + fee) * (11000 - 10000) ∧
      (10000 + fee) * 10000 ≤ 10000 * 11000 := by
  intro w
  have hroot : Nat.sqrt (w.pair.reserve0 * w.pair.reserve1) = 11000 := by decide +kernel
  have hlast : Nat.sqrt w.pair.kLast = 10000 := by decide +kernel
  have hsupply : w.pair.totalSupply = 10000 := by decide +kernel
  obtain ⟨-, fee, -, hminted, hsixth, -, hshare⟩ :=
    protocol_fee_bounded sampleKeccak256 sampleEcrecover 262144 sampleToken sampleToken ⟨⟨7⟩, ⟨9⟩⟩
      sampleGrowth (⟨1700000007, 4⟩, .mint ⟨4⟩) (by decide +kernel) (by decide +kernel)
      (by decide +kernel)
  rw [hroot, hlast, hsupply] at hsixth hshare
  exact ⟨fee, hminted, hsixth (by decide), hshare⟩

end EnergyChain.Dex
