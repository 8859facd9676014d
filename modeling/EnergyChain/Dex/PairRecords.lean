import EnergyChain.Dex.PairTransfers
import EnergyChain.Foundations.TimeWeighted

/-!
# What a pair records

The reserves, the time they were stored at and the price accumulators change in
`_update` only; `kLast` is set at mints and burns only. One lemma for each function
says what a successful call records, and one more that all other calls, those of a
callback included, record nothing.
-/

namespace EnergyChain.Dex

variable {pool : Pool} {w w' w₁ : World} {block : Block} {dst : Address} {p p' p'' : PairStorage}
  {factory : FeeSetting} {feeOn : Bool} {t : ERC20} {b₀ b₁ r₀ r₁ a₀ a₁ l : ℕ}

/-- Nothing was recorded. -/
structure Quiet (p p' : PairStorage) : Prop where
  reserve0 : p'.reserve0 = p.reserve0
  reserve1 : p'.reserve1 = p.reserve1
  time : p'.blockTimestampLast = p.blockTimestampLast
  price0 : p'.price0CumulativeLast = p.price0CumulativeLast
  price1 : p'.price1CumulativeLast = p.price1CumulativeLast

/-- What an accumulator counts for each second at two reserves. -/
def countedPrice (priced other : ℕ) : ℕ :=
  if priced ≠ 0 ∧ other ≠ 0 then other * 2 ^ 112 / priced else 0

/-- The reserves were replaced in a block, the time before it counted at the old ones. -/
structure Updated (block : Block) (p p' : PairStorage) : Prop where
  time : p'.blockTimestampLast = block.timestamp % 2 ^ 32
  price0 : p'.price0CumulativeLast ≡ p.price0CumulativeLast +
    countedPrice p.reserve0 p.reserve1 *
      elapsed (block.timestamp % 2 ^ 32) p.blockTimestampLast [MOD uint256Size]
  price1 : p'.price1CumulativeLast ≡ p.price1CumulativeLast +
    countedPrice p.reserve1 p.reserve0 *
      elapsed (block.timestamp % 2 ^ 32) p.blockTimestampLast [MOD uint256Size]

namespace Quiet

theorem refl (p : PairStorage) : Quiet p p := ⟨rfl, rfl, rfl, rfl, rfl⟩

theorem trans (h : Quiet p p') (h' : Quiet p' p'') : Quiet p p'' :=
  ⟨h'.reserve0.trans h.reserve0, h'.reserve1.trans h.reserve1, h'.time.trans h.time,
    h'.price0.trans h.price0, h'.price1.trans h.price1⟩

theorem withToken (p : PairStorage) (t : ERC20) : Quiet p (p.withToken t) :=
  ⟨rfl, rfl, rfl, rfl, rfl⟩

theorem setUnlocked (w : World) (n : ℕ) : Quiet w.pair (w.setUnlocked n).pair :=
  ⟨rfl, rfl, rfl, rfl, rfl⟩

end Quiet

namespace Updated

theorem of_quiet {q q' : PairStorage} (h : Updated block q q') (hbefore : Quiet p q)
    (hafter : Quiet q' p') : Updated block p p' where
  time := hafter.time.trans h.time
  price0 := by
    rw [hafter.price0, ← hbefore.price0, ← hbefore.reserve0, ← hbefore.reserve1, ← hbefore.time]
    exact h.price0
  price1 := by
    rw [hafter.price1, ← hbefore.price1, ← hbefore.reserve0, ← hbefore.reserve1, ← hbefore.time]
    exact h.price1

end Updated

/-! ### The internal functions -/

theorem accumulate_modEq {priced other : ℕ} (h : priced ≠ 0 ∧ other ≠ 0)
    (cumulative timeElapsed : ℕ) : accumulate cumulative priced other timeElapsed ≡
      cumulative + countedPrice priced other * timeElapsed [MOD uint256Size] := by
  rw [countedPrice, if_pos h]
  exact Nat.mod_modEq _ _

theorem countedPrice_mul_eq_zero {priced other timeElapsed : ℕ}
    (h : ¬ (timeElapsed > 0 ∧ priced ≠ 0 ∧ other ≠ 0)) :
    countedPrice priced other * timeElapsed = 0 := by
  unfold countedPrice
  split_ifs with hreserves
  · have hzero : timeElapsed = 0 := by
      by_contra hne
      exact h ⟨Nat.pos_of_ne_zero hne, hreserves⟩
    rw [hzero, Nat.mul_zero]
  · exact Nat.zero_mul _

theorem updated_of_update (h : update block b₀ b₁ p.reserve0 p.reserve1 p = .ok p') :
    Updated block p p' := by
  simp only [update, except_bind_ok_iff, except_pure_ok_iff] at h
  obtain ⟨-, -, rfl⟩ := h
  by_cases hcounted : elapsed (block.timestamp % 2 ^ 32) p.blockTimestampLast > 0 ∧
      p.reserve0 ≠ 0 ∧ p.reserve1 ≠ 0
  · simp only [accumulatePrices, if_pos hcounted]
    exact ⟨rfl, accumulate_modEq hcounted.2 _ _, accumulate_modEq hcounted.2.symm _ _⟩
  · simp only [accumulatePrices, if_neg hcounted]
    refine ⟨rfl, ?_, ?_⟩
    · rw [countedPrice_mul_eq_zero hcounted, Nat.add_zero]
    · rw [countedPrice_mul_eq_zero fun h => hcounted ⟨h.1, h.2.symm⟩, Nat.add_zero]

theorem mintGrowthFee_quiet (h : mintGrowthFee dst r₀ r₁ p = .ok p') :
    Quiet p p' ∧ p'.kLast = p.kLast := by
  simp only [mintGrowthFee, except_bind_ok_iff] at h
  obtain ⟨_, -, rootK, -, rootKLast, -, h⟩ := h
  split_ifs at h
  · rw [except_bind_ok_iff] at h
    obtain ⟨liquidity, -, hmint⟩ := h
    obtain ⟨t, rfl, -, -⟩ := mintPositive_ok hmint
    exact ⟨.withToken p t, rfl⟩
  · obtain rfl := Except.ok.inj h
    exact ⟨.refl _, rfl⟩

theorem mintFee_quiet (h : mintFee factory r₀ r₁ p = .ok (feeOn, p')) :
    Quiet p p' ∧ (factory.feeTo ≠ .zero ∧ feeOn = true ∧ p'.kLast = p.kLast ∨
      factory.feeTo = .zero ∧ feeOn = false ∧ p'.kLast = 0) := by
  rcases mintFee_ok h with ⟨hon, rfl, rfl | ⟨-, hmint⟩⟩ | ⟨hoff, rfl, rfl⟩
  · exact ⟨.refl _, Or.inl ⟨hon, rfl, rfl⟩⟩
  · obtain ⟨hquiet, hlast⟩ := mintGrowthFee_quiet hmint
    exact ⟨hquiet, Or.inl ⟨hon, rfl, hlast⟩⟩
  · exact ⟨⟨rfl, rfl, rfl, rfl, rfl⟩, Or.inr ⟨hoff, rfl, rfl⟩⟩

theorem mintLiquidity_quiet (h : mintLiquidity a₀ a₁ r₀ r₁ p = .ok (l, p')) :
    Quiet p p' ∧ p'.kLast = p.kLast := by
  by_cases hzero : p.totalSupply = 0
  · rw [mintLiquidity, if_pos hzero] at h
    simp only [except_bind_ok_iff, except_pure_ok_iff, Prod.mk.injEq] at h
    obtain ⟨_, -, _, -, _, -, t, -, -, rfl⟩ := h
    exact ⟨.withToken p t, rfl⟩
  · obtain ⟨rfl, -⟩ := mintLiquidity_later hzero h
    exact ⟨.refl _, rfl⟩

theorem recordK_quiet (h : recordK feeOn p = .ok p') :
    Quiet p p' ∧
      p'.kLast = if feeOn then p.reserve0 * p.reserve1 else p.kLast := by
  unfold recordK at h
  split_ifs at h with hon
  · simp only [except_bind_ok_iff, checkedMul_ok_iff, except_pure_ok_iff] at h
    obtain ⟨_, ⟨-, rfl⟩, rfl⟩ := h
    exact ⟨⟨rfl, rfl, rfl, rfl, rfl⟩, by rw [if_pos hon]⟩
  · obtain rfl := Except.ok.inj h
    exact ⟨.refl _, by rw [if_neg hon]⟩

/-! ### Mints and burns -/

/-- What a mint or a burn records: the reserves are replaced by the balances, and
with the fee on their product is kept. -/
structure LiquidityEvent (pool : Pool) (block : Block) (w w' : World) : Prop where
  updated : Updated block w.pair w'.pair
  reserve0 : w'.pair.reserve0 = pool.balance0 w'
  reserve1 : w'.pair.reserve1 = pool.balance1 w'
  kLast : w'.pair.kLast =
    if w.factory.feeTo = .zero then 0 else w'.pair.reserve0 * w'.pair.reserve1
  factory : w'.factory = w.factory

theorem event_of_update {q q' : PairStorage} {feeOn : Bool}
    (hfee : mintFee factory r₀ r₁ p = .ok (feeOn, p')) (hquiet : Quiet p' q)
    (hlast : q.kLast = p'.kLast) (hr₀ : r₀ = p.reserve0) (hr₁ : r₁ = p.reserve1)
    (hupdate : update block b₀ b₁ r₀ r₁ q = .ok q') (hrecord : recordK feeOn q' = .ok p'') :
    Updated block p p'' ∧ p''.reserve0 = b₀ ∧ p''.reserve1 = b₁ ∧
      p''.kLast = if factory.feeTo = .zero then 0 else p''.reserve0 * p''.reserve1 := by
  obtain ⟨hcharged, hset⟩ := mintFee_quiet hfee
  have hbefore := hcharged.trans hquiet
  obtain ⟨-, ⟨hreserve₀, hreserve₁⟩, -, hlast'⟩ := update_ok hupdate
  obtain ⟨hafter, hk⟩ := recordK_quiet hrecord
  rw [hr₀, hr₁, ← hbefore.reserve0, ← hbefore.reserve1] at hupdate
  refine ⟨(updated_of_update hupdate).of_quiet hbefore hafter, hafter.reserve0.trans hreserve₀,
    hafter.reserve1.trans hreserve₁, ?_⟩
  rw [hk, hafter.reserve0, hafter.reserve1]
  rcases hset with ⟨hon, rfl, -⟩ | ⟨hoff, rfl, hcleared⟩
  · rw [if_pos rfl, if_neg hon]
  · rw [if_neg Bool.false_ne_true, if_pos hoff, hlast', hlast, hcleared]

namespace Pool

theorem mint_event (h : pool.mint block dst w = .ok (l, w')) :
    LiquidityEvent pool block w w' := by
  obtain ⟨-, w₁, hbody, rfl⟩ := lock_ok h
  dsimp only at hbody
  simp only [except_bind_ok_iff, except_pure_ok_iff, Prod.mk.injEq] at hbody
  obtain ⟨_, -, _, -, ⟨feeOn, p₁⟩, hfee, ⟨l, p₂⟩, hliquidity, -, -, t, -, p₃, hupdate, p₄,
    hrecord, -, rfl⟩ := hbody
  dsimp only at hfee hliquidity hupdate hrecord
  obtain ⟨hquiet, hlast⟩ := mintLiquidity_quiet hliquidity
  obtain ⟨hupdated, hreserve₀, hreserve₁, hk⟩ := event_of_update hfee
    (hquiet.trans (.withToken p₂ t)) hlast rfl rfl hupdate hrecord
  exact ⟨hupdated.of_quiet ⟨rfl, rfl, rfl, rfl, rfl⟩ ⟨rfl, rfl, rfl, rfl, rfl⟩, hreserve₀,
    hreserve₁, hk, rfl⟩

theorem burn_event (h : pool.burn block dst w = .ok ((a₀, a₁), w')) :
    LiquidityEvent pool block w w' := by
  obtain ⟨-, w₁, hbody, rfl⟩ := lock_ok h
  dsimp only at hbody
  simp only [except_bind_ok_iff, except_pure_ok_iff, Prod.mk.injEq] at hbody
  obtain ⟨⟨feeOn, p₁⟩, hfee, _, -, _, -, _, -, _, -, -, -, t, -, token0, -, token1, -, p₂, hupdate,
    p₃, hrecord, -, rfl⟩ := hbody
  dsimp only at hfee hupdate hrecord
  obtain ⟨hupdated, hreserve₀, hreserve₁, hk⟩ := event_of_update hfee (.withToken p₁ t) rfl rfl
    rfl hupdate hrecord
  exact ⟨hupdated.of_quiet ⟨rfl, rfl, rfl, rfl, rfl⟩ ⟨rfl, rfl, rfl, rfl, rfl⟩, hreserve₀,
    hreserve₁, hk, rfl⟩

end Pool

/-! ### Calls without `_update` -/

/-- The calls that mint or burn liquidity. -/
def Call.movesLiquidity : Call pool → Bool
  | .mint _ => true
  | .burn _ => true
  | _ => false

/-- The calls that store new reserves. -/
def Call.updates : Call pool → Bool
  | .mint _ => true
  | .burn _ => true
  | .swap .. => true
  | .sync => true
  | _ => false

section Execution

variable {keccak256 : Bytes → Bytes} {ecrecover : Bytes → Signature → Address} {c : Call pool}

theorem execute_quiet (hc : c.updates = false)
    (h : execute keccak256 ecrecover block c w = .ok w') :
    Quiet w.pair w'.pair ∧ w'.pair.kLast = w.pair.kLast := by
  cases c <;> simp only [execute, except_bind_ok_iff, except_pure_ok_iff] at h
  case mint dst => cases hc
  case burn dst => cases hc
  case swap amount0Out amount1Out dst data callback => cases hc
  case sync => cases hc
  case skim dst =>
    obtain ⟨⟨_, _⟩, h, rfl⟩ := h
    obtain ⟨-, w₁, hbody, rfl⟩ := lock_ok h
    simp only [except_bind_ok_iff, except_pure_ok_iff, Prod.mk.injEq] at hbody
    obtain ⟨_, -, token0, -, _, -, token1, -, -, rfl⟩ := hbody
    exact ⟨⟨rfl, rfl, rfl, rfl, rfl⟩, rfl⟩
  case liquidity call =>
    obtain ⟨t, -, rfl⟩ := h
    exact ⟨.withToken _ t, rfl⟩
  case permit message signature =>
    obtain ⟨p, h, rfl⟩ := h
    simp only [PairStorage.permit, except_bind_ok_iff, except_pure_ok_iff] at h
    obtain ⟨-, -, _, -, -, -, rfl⟩ := h
    exact ⟨⟨rfl, rfl, rfl, rfl, rfl⟩, rfl⟩
  case token0 call =>
    obtain ⟨t, -, rfl⟩ := h
    exact ⟨.refl _, rfl⟩
  case token1 call =>
    obtain ⟨t, -, rfl⟩ := h
    exact ⟨.refl _, rfl⟩
  case setFeeTo sender feeTo =>
    obtain ⟨factory, -, rfl⟩ := h
    exact ⟨.refl _, rfl⟩
  case setFeeToSetter sender feeToSetter =>
    obtain ⟨factory, -, rfl⟩ := h
    exact ⟨.refl _, rfl⟩

theorem updates_eq_false_of_locked (hlocked : w.pair.unlocked ≠ 1)
    (h : execute keccak256 ecrecover block c w = .ok w') : c.updates = false := by
  cases c <;> simp only [execute, except_bind_ok_iff, except_pure_ok_iff] at h
  case mint dst =>
    obtain ⟨⟨_, _⟩, h, -⟩ := h
    exact absurd (lock_ok h).1 hlocked
  case burn dst =>
    obtain ⟨⟨_, _⟩, h, -⟩ := h
    exact absurd (lock_ok h).1 hlocked
  case swap amount0Out amount1Out dst data callback =>
    obtain ⟨⟨_, _⟩, h, -⟩ := h
    exact absurd (lock_ok h).1 hlocked
  case sync =>
    obtain ⟨⟨_, _⟩, h, -⟩ := h
    exact absurd (lock_ok h).1 hlocked
  all_goals rfl

theorem executeAll_quiet (callback : List (Call pool)) (w : World) (hlocked : w.pair.unlocked ≠ 1) :
    Quiet w.pair (executeAll keccak256 ecrecover block callback w).pair ∧
      (executeAll keccak256 ecrecover block callback w).pair.kLast = w.pair.kLast := by
  induction callback generalizing w with
  | nil =>
    rw [executeAll]
    exact ⟨.refl _, rfl⟩
  | cons c callback ih =>
    rw [executeAll]
    cases h : execute keccak256 ecrecover block c w with
    | error e => exact ih w hlocked
    | ok w₁ =>
      obtain ⟨hquiet, hlast⟩ := execute_quiet (updates_eq_false_of_locked hlocked h) h
      have hstill : w₁.pair.unlocked ≠ 1 := (execute_locked hlocked h).unlocked ▸ hlocked
      obtain ⟨hrest, hlast'⟩ := ih w₁ hstill
      exact ⟨hquiet.trans hrest, hlast'.trans hlast⟩

/-! ### Swaps and syncs -/

/-- What a swap or a sync records: the reserves are replaced by the balances, and
their product has not fallen. -/
structure Traded (pool : Pool) (block : Block) (w w' : World) : Prop where
  updated : Updated block w.pair w'.pair
  product_le : w.pair.reserve0 * w.pair.reserve1 ≤ w'.pair.reserve0 * w'.pair.reserve1
  kLast : w'.pair.kLast = w.pair.kLast

theorem sync_traded (h₀ : w.pair.reserve0 ≤ pool.balance0 w) (h₁ : w.pair.reserve1 ≤ pool.balance1 w)
    (h : pool.sync block w = .ok ((), w')) : Traded pool block w w' := by
  obtain ⟨-, w₁, hbody, rfl⟩ := lock_ok h
  simp only [except_bind_ok_iff, except_pure_ok_iff, Prod.mk.injEq, true_and] at hbody
  obtain ⟨p, hupdate, rfl⟩ := hbody
  obtain ⟨-, ⟨hreserve₀, hreserve₁⟩, -, hlast⟩ := update_ok hupdate
  refine ⟨(updated_of_update hupdate).of_quiet ⟨rfl, rfl, rfl, rfl, rfl⟩ ⟨rfl, rfl, rfl, rfl, rfl⟩,
    ?_, hlast⟩
  change w.pair.reserve0 * w.pair.reserve1 ≤ p.reserve0 * p.reserve1
  rw [hreserve₀, hreserve₁]
  exact Nat.mul_le_mul h₀ h₁

theorem swap_traded {amount0Out amount1Out : ℕ} {data : Bytes}
    {callee : World → Except Revert World}
    (hcallee : ∀ w₁ w₂, w₁.pair.unlocked ≠ 1 → callee w₁ = .ok w₂ →
      Quiet w₁.pair w₂.pair ∧ w₂.pair.kLast = w₁.pair.kLast)
    (h : pool.swap block amount0Out amount1Out dst data callee w = .ok ((), w')) :
    Traded pool block w w' := by
  obtain ⟨-, w₁, hbody, rfl⟩ := lock_ok h
  dsimp only at hbody
  simp only [except_bind_ok_iff, require_ok_iff, checkedMul_ok_iff, except_pure_ok_iff,
    Prod.mk.injEq, true_and] at hbody
  obtain ⟨-, -, -, -, -, -, token0, -, token1, -, w₂, hcall, in₀, -, in₁, -, -, -, x₀, hx₀, x₁, hx₁,
    _, ⟨-, rfl⟩, _, ⟨-, rfl⟩, _, ⟨-, rfl⟩, -, hk, p, hupdate, rfl⟩ := hbody
  have hquiet : Quiet w.pair w₂.pair ∧ w₂.pair.kLast = w.pair.kLast := by
    unfold Pool.call at hcall
    split_ifs at hcall
    · obtain ⟨hcalled, hlast⟩ := hcallee _ _ Nat.zero_ne_one hcall
      exact ⟨(Quiet.setUnlocked w 0).trans hcalled, hlast⟩
    · obtain rfl := Except.ok.inj hcall
      exact ⟨⟨rfl, rfl, rfl, rfl, rfl⟩, rfl⟩
  obtain ⟨hcalled, hlast⟩ := hquiet
  obtain ⟨-, ⟨hreserve₀, hreserve₁⟩, -, hlast'⟩ := update_ok hupdate
  have hupdated : update block (pool.balance0 w₂) (pool.balance1 w₂) w₂.pair.reserve0
      w₂.pair.reserve1 w₂.pair = .ok p := by
    rw [hcalled.reserve0, hcalled.reserve1]
    exact hupdate
  refine ⟨(updated_of_update hupdated).of_quiet hcalled ⟨rfl, rfl, rfl, rfl, rfl⟩, ?_,
    hlast'.trans hlast⟩
  change w.pair.reserve0 * w.pair.reserve1 ≤ p.reserve0 * p.reserve1
  rw [hreserve₀, hreserve₁]
  exact product_le_of_adjusted (balanceAdjusted_le hx₀) (balanceAdjusted_le hx₁) hk

/-! ### Every call -/

/-- What a call records. -/
inductive Recorded (block : Block) (c : Call pool) (w w' : World) : Prop where
  | event (hc : c.movesLiquidity = true) (h : LiquidityEvent pool block w w')
  | trade (hc : c.updates = true) (hm : c.movesLiquidity = false) (h : Traded pool block w w')
  | quiet (hc : c.updates = false) (h : Quiet w.pair w'.pair)
      (hlast : w'.pair.kLast = w.pair.kLast)

theorem execute_recorded (hw : Settled pool w)
    (h : execute keccak256 ecrecover block c w = .ok w') : Recorded block c w w' := by
  cases hc : c.updates with
  | false =>
    obtain ⟨hquiet, hlast⟩ := execute_quiet hc h
    exact .quiet hc hquiet hlast
  | true =>
    cases c <;> simp only [execute, except_bind_ok_iff, except_pure_ok_iff] at h
    case mint dst =>
      obtain ⟨⟨_, _⟩, h, rfl⟩ := h
      exact .event rfl (pool.mint_event h)
    case burn dst =>
      obtain ⟨⟨⟨_, _⟩, _⟩, h, rfl⟩ := h
      exact .event rfl (pool.burn_event h)
    case swap amount0Out amount1Out dst data callback =>
      obtain ⟨⟨_, _⟩, h, rfl⟩ := h
      refine .trade hc rfl (swap_traded (fun w₁ w₂ hlocked hcall => ?_) h)
      exact Except.ok.inj hcall ▸ executeAll_quiet callback w₁ hlocked
    case sync =>
      obtain ⟨⟨_, _⟩, h, rfl⟩ := h
      exact .trade hc rfl (sync_traded hw.covered0 hw.covered1 h)
    all_goals cases hc

end Execution
end EnergyChain.Dex
