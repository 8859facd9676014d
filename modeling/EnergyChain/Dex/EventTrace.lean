import EnergyChain.Dex.PairEvents
import EnergyChain.Dex.PairSafety

/-!
# The grammar of the events of a pair

Every change of the reserves is announced by a `Sync`, and the event after it
accounts for the change: what a mint or a swap brought in is there to the unit,
and a burn or a `sync` at most adds what had been sent to the pair unasked. The
log of every run has this form from the empty pair to its present reserves.
-/

namespace EnergyChain.Dex

open Emitting

/-- The events of the liquidity token. -/
def PairEvent.OfToken : PairEvent → Prop
  | .approval .. | .transfer .. => True
  | _ => False

/-- What `swap` demands of the new reserves. -/
structure SwapAccounted (r₀ r₁ r₀' r₁' in₀ in₁ out₀ out₁ : ℕ) : Prop where
  paid : 0 < in₀ ∨ 0 < in₁
  taken : 0 < out₀ ∨ 0 < out₁
  out₀_lt : out₀ < r₀
  out₁_lt : out₁ < r₁
  balanced₀ : r₀' + out₀ = r₀ + in₀
  balanced₁ : r₁' + out₁ = r₁ + in₁
  product : r₀ * r₁ * 1000 ^ 2 ≤ (r₀' * 1000 - in₀ * 3) * (r₁' * 1000 - in₁ * 3)

/-- A log that leads from one pair of reserves to another. -/
inductive Trace : ℕ × ℕ → List PairEvent → ℕ × ℕ → Prop
  | nil (r) : Trace r [] r
  | token {r r' e log} : e.OfToken → Trace r log r' → Trace r (e :: log) r'
  | mint {r₀ r₁ r' log} (sender : Address) (a₀ a₁ : ℕ) : Trace (r₀ + a₀, r₁ + a₁) log r' →
    Trace (r₀, r₁) (.sync (r₀ + a₀) (r₁ + a₁) :: .mint sender a₀ a₁ :: log) r'
  | burn {r₀ r₁ r₀' r₁' a₀ a₁ r' log} (sender dst : Address) : 0 < a₀ → 0 < a₁ →
    r₀ ≤ r₀' + a₀ → r₁ ≤ r₁' + a₁ → Trace (r₀', r₁') log r' →
    Trace (r₀, r₁) (.sync r₀' r₁' :: .burn sender a₀ a₁ dst :: log) r'
  | swap {r₀ r₁ r₀' r₁' in₀ in₁ out₀ out₁ r' log} (sender dst : Address) :
    SwapAccounted r₀ r₁ r₀' r₁' in₀ in₁ out₀ out₁ → Trace (r₀', r₁') log r' →
    Trace (r₀, r₁) (.sync r₀' r₁' :: .swap sender in₀ in₁ out₀ out₁ dst :: log) r'
  | sync {r₀ r₁ r₀' r₁' r' log} : r₀ ≤ r₀' → r₁ ≤ r₁' → Trace (r₀', r₁') log r' →
    Trace (r₀, r₁) (.sync r₀' r₁' :: log) r'

namespace Trace

variable {r r' r'' : ℕ × ℕ} {log log' : List PairEvent}

theorem append (h : Trace r log r') (h' : Trace r' log' r'') : Trace r (log ++ log') r'' := by
  induction h with
  | nil => exact h'
  | token he _ ih => exact .token he (ih h')
  | mint sender a₀ a₁ _ ih => exact .mint sender a₀ a₁ (ih h')
  | burn sender dst ha₀ ha₁ h₀ h₁ _ ih => exact .burn sender dst ha₀ ha₁ h₀ h₁ (ih h')
  | swap sender dst hswap _ ih => exact .swap sender dst hswap (ih h')
  | sync h₀ h₁ _ ih => exact .sync h₀ h₁ (ih h')

theorem of_token (h : ∀ e ∈ log, e.OfToken) (r : ℕ × ℕ) : Trace r log r := by
  induction log with
  | nil => exact .nil r
  | cons e log ih =>
    apply token (h e List.mem_cons_self)
    exact ih fun e he => h e (List.mem_cons_of_mem _ he)

end Trace

/-! ### What the events say came in and went out -/

namespace PairEvent

def in0 : PairEvent → ℕ
  | .mint _ amount0 _ => amount0
  | .swap _ amount0In _ _ _ _ => amount0In
  | _ => 0

def in1 : PairEvent → ℕ
  | .mint _ _ amount1 => amount1
  | .swap _ _ amount1In _ _ _ => amount1In
  | _ => 0

def out0 : PairEvent → ℕ
  | .burn _ amount0 _ _ => amount0
  | .swap _ _ _ amount0Out _ _ => amount0Out
  | _ => 0

def out1 : PairEvent → ℕ
  | .burn _ _ amount1 _ => amount1
  | .swap _ _ _ _ amount1Out _ => amount1Out
  | _ => 0

theorem OfToken.moves_nothing {e : PairEvent} (h : e.OfToken) :
    (e.in0 = 0 ∧ e.in1 = 0) ∧ e.out0 = 0 ∧ e.out1 = 0 := by
  cases e with
  | approval => exact ⟨⟨rfl, rfl⟩, rfl, rfl⟩
  | transfer => exact ⟨⟨rfl, rfl⟩, rfl, rfl⟩
  | _ => cases h

end PairEvent

/-- What came in is still in the reserves or went out. -/
theorem Trace.accounted {r r' : ℕ × ℕ} {log : List PairEvent} (h : Trace r log r') :
    r.1 + total PairEvent.in0 log ≤ r'.1 + total PairEvent.out0 log ∧
      r.2 + total PairEvent.in1 log ≤ r'.2 + total PairEvent.out1 log := by
  induction h with
  | nil => exact ⟨le_rfl, le_rfl⟩
  | token he _ ih =>
    obtain ⟨⟨hin₀, hin₁⟩, hout₀, hout₁⟩ := he.moves_nothing
    simpa [hin₀, hin₁, hout₀, hout₁] using ih
  | mint sender a₀ a₁ _ ih =>
    simp only [total_cons, PairEvent.in0, PairEvent.in1, PairEvent.out0, PairEvent.out1] at ih ⊢
    omega
  | burn sender dst _ _ h₀ h₁ _ ih =>
    simp only [total_cons, PairEvent.in0, PairEvent.in1, PairEvent.out0, PairEvent.out1] at ih ⊢
    omega
  | swap sender dst hswap _ ih =>
    have h₀ := hswap.balanced₀
    have h₁ := hswap.balanced₁
    simp only [total_cons, PairEvent.in0, PairEvent.in1, PairEvent.out0, PairEvent.out1] at ih ⊢
    omega
  | sync h₀ h₁ _ ih =>
    simp only [total_cons, PairEvent.in0, PairEvent.in1, PairEvent.out0, PairEvent.out1] at ih ⊢
    omega

def PairEvent.announced : PairEvent → Option (ℕ × ℕ)
  | .sync reserve0 reserve1 => some (reserve0, reserve1)
  | _ => none

theorem Trace.announced_last {r r' : ℕ × ℕ} {log : List PairEvent} (h : Trace r log r') :
    r' = ((log.filterMap PairEvent.announced).getLast?).getD r := by
  induction h with
  | nil => rfl
  | @token _ _ e _ he _ ih =>
    have hnone : e.announced = none := by
      cases e with
      | sync => cases he
      | _ => rfl
    rw [List.filterMap_cons_none hnone]
    exact ih
  | _ =>
    rename_i ih
    rw [ih]
    simp [PairEvent.announced, List.getLast?_cons]

/-! ### Events of the liquidity token only -/

section OfToken

variable {p : PairStorage} {t : ERC20} {src dst : Address} {r₀ r₁ a₀ a₁ v : ℕ}

theorem mintLogged_ofToken : Only PairEvent.OfToken (t.mintLogged dst v) := by
  apply Only.lift_bind
  intro t
  apply Only.bind (Only.emit trivial)
  intro _
  exact Only.pure t

theorem burnLogged_ofToken : Only PairEvent.OfToken (t.burnLogged src v) := by
  apply Only.lift_bind
  intro t
  apply Only.bind (Only.emit trivial)
  intro _
  exact Only.pure t

theorem transferLogged_ofToken : Only PairEvent.OfToken (t.transferLogged src dst v) := by
  apply Only.lift_bind
  intro t
  apply Only.bind (Only.emit trivial)
  intro _
  exact Only.pure t

theorem applyLogged_ofToken {pool : Pool} (call : TransferCall pool) :
    Only PairEvent.OfToken (call.applyLogged t) := by
  cases call with
  | approve sender spender value =>
    apply Only.bind (Only.emit trivial)
    intro _
    exact Only.pure _
  | transfer sender dst value => exact transferLogged_ofToken
  | transferFrom sender src dst value =>
    apply Only.lift_bind
    intro t
    exact transferLogged_ofToken

theorem permitLogged_ofToken {keccak256 : Bytes → Bytes}
    {ecrecover : Bytes → Signature → Address} {block : Block} {m : PermitMessage}
    {signature : Signature} :
    Only PairEvent.OfToken (p.permitLogged keccak256 ecrecover block m signature) := by
  apply Only.lift_bind
  intro p
  apply Only.bind (Only.emit trivial)
  intro _
  exact Only.pure p

theorem mintPositiveLogged_ofToken : Only PairEvent.OfToken (mintPositiveLogged dst v p) := by
  unfold mintPositiveLogged
  split_ifs
  · apply Only.bind mintLogged_ofToken
    intro t
    exact Only.pure _
  · exact Only.pure p

theorem mintGrowthFeeLogged_ofToken :
    Only PairEvent.OfToken (mintGrowthFeeLogged dst r₀ r₁ p) := by
  apply Only.lift_bind
  intro k
  apply Only.lift_bind
  intro rootK
  apply Only.lift_bind
  intro rootKLast
  split_ifs
  · apply Only.lift_bind
    intro l
    exact mintPositiveLogged_ofToken
  · exact Only.pure p

theorem mintFeeLogged_ofToken {factory : FeeSetting} :
    Only PairEvent.OfToken (mintFeeLogged factory r₀ r₁ p) := by
  unfold mintFeeLogged
  split_ifs
  · apply Only.bind mintGrowthFeeLogged_ofToken
    intro p
    exact Only.pure _
  · apply Only.bind (Only.pure p)
    intro p
    exact Only.pure _
  · exact Only.pure _
  · exact Only.pure _

theorem mintLiquidityLogged_ofToken :
    Only PairEvent.OfToken (mintLiquidityLogged a₀ a₁ r₀ r₁ p) := by
  unfold mintLiquidityLogged
  split_ifs
  · apply Only.lift_bind
    intro product
    apply Only.lift_bind
    intro root
    apply Only.lift_bind
    intro l
    apply Only.bind mintLogged_ofToken
    intro t
    exact Only.pure _
  · apply Only.lift_bind
    intro product0
    apply Only.lift_bind
    intro liquidity0
    apply Only.lift_bind
    intro product1
    apply Only.lift_bind
    intro liquidity1
    exact Only.pure _

end OfToken

/-! ### The locked functions -/

def World.reserves (w : World) : ℕ × ℕ := (w.pair.reserve0, w.pair.reserve1)

section Locked

variable {pool : Pool} {w w' : World} {log : List PairEvent} {block : Block}
  {sender dst : Address} {p p' : PairStorage}

theorem updateLogged_ok {b₀ b₁ r₀ r₁ : ℕ}
    (h : (updateLogged block b₀ b₁ r₀ r₁ p).run = .ok (log, p')) :
    log = [.sync b₀ b₁] ∧ p'.reserve0 = b₀ ∧ p'.reserve1 = b₁ := by
  simp only [updateLogged, ↓run_monadLift_bind_ok_iff, run_emit_bind_ok_iff,
    run_pure_ok_iff] at h
  obtain ⟨p', hupdate, _, ⟨rfl, rfl⟩, rfl⟩ := h
  obtain ⟨-, ⟨h₀, h₁⟩, -, -⟩ := update_ok hupdate
  rw [h₀, h₁]
  exact ⟨rfl, rfl, rfl⟩

theorem recordK_reserves {feeOn : Bool} (h : recordK feeOn p = .ok p') :
    p'.reserve0 = p.reserve0 ∧ p'.reserve1 = p.reserve1 := by
  unfold recordK at h
  split_ifs at h
  · simp only [except_bind_ok_iff, except_pure_ok_iff] at h
    obtain ⟨k, -, rfl⟩ := h
    exact ⟨rfl, rfl⟩
  · obtain rfl := Except.ok.inj h
    exact ⟨rfl, rfl⟩

theorem lockLogged_trace {α : Type} {r : α} {body : World → Logged (α × World)}
    (hw : Settled pool w) (h : (lockLogged body w).run = .ok (log, r, w'))
    (hbody : ∀ {w₁ w₂ log}, Settled pool w₁ → w₁.pair.unlocked = 0 →
      (body w₁).run = .ok (log, r, w₂) → Trace w₁.reserves log w₂.reserves) :
    Trace w.reserves log w'.reserves := by
  unfold lockLogged at h
  simp only [↓run_monadLift_bind_ok_iff, run_bind_ok_iff, run_pure_ok_iff, Prod.mk.injEq] at h
  obtain ⟨_, -, log, ⟨_, w₁⟩, hrun, _, ⟨rfl, rfl, rfl⟩, rfl⟩ := h
  have htrace : Trace (w.setUnlocked 0).reserves log w₁.reserves :=
    hbody (hw.setUnlocked 0) rfl hrun
  rw [List.append_nil]
  exact htrace

theorem lockLogged_open {α : Type} {r : α} {body : World → Logged (α × World)}
    (h : (lockLogged body w).run = .ok (log, r, w')) : w.pair.unlocked = 1 := by
  unfold lockLogged at h
  simp only [↓run_monadLift_bind_ok_iff, require_ok_iff] at h
  exact h.choose_spec.1

theorem poolMintLogged_trace {l : ℕ} (hw : Settled pool w)
    (h : (pool.mintLogged block sender dst w).run = .ok (log, l, w')) :
    Trace w.reserves log w'.reserves := by
  apply lockLogged_trace hw h
  intro w w' log _ _ h
  simp only [↓run_monadLift_bind_ok_iff, ↓run_emit_bind_ok_iff, run_bind_ok_iff, run_pure_ok_iff,
    Prod.mk.injEq, checkedSub_ok_iff] at h
  obtain ⟨a₀, ⟨hle₀, rfl⟩, a₁, ⟨hle₁, rfl⟩, log₁, ⟨feeOn, p₁⟩, hfee, _, ⟨log₂, ⟨l, p₂⟩, hliquidity,
    _, ⟨_, -, log₃, t, hmint, _, ⟨log₄, p₃, hupdate, _, ⟨p₄, hrecord, _, ⟨rfl, rfl, rfl⟩, rfl⟩,
    rfl⟩, rfl⟩, rfl⟩, rfl⟩ := h
  obtain ⟨rfl, h₀, h₁⟩ := updateLogged_ok hupdate
  obtain ⟨hsame₀, hsame₁⟩ := recordK_reserves hrecord
  have hreserves : (w.withPair p₄).reserves = (pool.balance0 w, pool.balance1 w) :=
    Prod.ext (hsame₀.trans h₀) (hsame₁.trans h₁)
  have hend : Trace w.reserves
      [.sync (pool.balance0 w) (pool.balance1 w),
        .mint sender (pool.balance0 w - w.pair.reserve0) (pool.balance1 w - w.pair.reserve1)]
      (w.withPair p₄).reserves := by
    have hmint : Trace (w.pair.reserve0, w.pair.reserve1) _ _ :=
      .mint sender (pool.balance0 w - w.pair.reserve0) (pool.balance1 w - w.pair.reserve1) (.nil _)
    rw [Nat.add_sub_cancel' hle₀, Nat.add_sub_cancel' hle₁] at hmint
    rw [hreserves]
    exact hmint
  apply (Trace.of_token (mintFeeLogged_ofToken.forall_mem hfee) _).append
  apply (Trace.of_token (mintLiquidityLogged_ofToken.forall_mem hliquidity) _).append
  apply (Trace.of_token (mintLogged_ofToken.forall_mem hmint) _).append
  exact hend

theorem poolBurnLogged_trace {amounts : ℕ × ℕ} (hw : Settled pool w)
    (h : (pool.burnLogged block sender dst w).run = .ok (log, amounts, w')) :
    Trace w.reserves log w'.reserves := by
  apply lockLogged_trace hw h
  intro w w' log hw _ h
  simp only [↓run_monadLift_bind_ok_iff, ↓run_emit_bind_ok_iff, run_bind_ok_iff, run_pure_ok_iff,
    Prod.mk.injEq, require_ok_iff] at h
  obtain ⟨log₁, ⟨feeOn, p₁⟩, hfee, _, ⟨_, -, a₀, -, _, -, a₁, -, _, ⟨hpos₀, hpos₁⟩, log₂, t, hburn,
    _, ⟨token0, hsent₀, token1, hsent₁, log₃, p₂, hupdate, _, ⟨p₃, hrecord, _, ⟨rfl, rfl, rfl⟩,
    rfl⟩, rfl⟩, rfl⟩, rfl⟩ := h
  obtain ⟨rfl, h₀, h₁⟩ := updateLogged_ok hupdate
  obtain ⟨hsame₀, hsame₁⟩ := recordK_reserves hrecord
  obtain ⟨hpaid₀, hleft₀⟩ := sub_le_of_safeTransfer hsent₀
  obtain ⟨hpaid₁, hleft₁⟩ := sub_le_of_safeTransfer hsent₁
  have hcovered₀ : w.pair.reserve0 ≤ w.token0.balanceOf pool.pair := hw.covered0
  have hcovered₁ : w.pair.reserve1 ≤ w.token1.balanceOf pool.pair := hw.covered1
  have hreserves : (p₃.reserve0, p₃.reserve1) =
      (token0.balanceOf pool.pair, token1.balanceOf pool.pair) :=
    Prod.ext (hsame₀.trans h₀) (hsame₁.trans h₁)
  apply (Trace.of_token (mintFeeLogged_ofToken.forall_mem hfee) _).append
  apply (Trace.of_token (burnLogged_ofToken.forall_mem hburn) _).append
  apply Trace.burn sender dst hpos₀ hpos₁
  · change w.pair.reserve0 ≤ token0.balanceOf pool.pair + a₀
    omega
  · change w.pair.reserve1 ≤ token1.balanceOf pool.pair + a₁
    omega
  · change Trace _ [] (p₃.reserve0, p₃.reserve1)
    rw [hreserves]
    exact .nil _

theorem payOut_left {t t' : ERC20} {v : ℕ} (h : pool.payOut t dst v = .ok t') :
    t.balanceOf pool.pair - v ≤ t'.balanceOf pool.pair := by
  unfold Pool.payOut at h
  split_ifs at h
  · exact (sub_le_of_safeTransfer h).2
  · obtain rfl := Except.ok.inj h
    exact Nat.sub_le _ _

/-- The callee stays outside and can make the liquidity token emit events only. -/
theorem poolSwapLogged_trace {amount0Out amount1Out : ℕ} {data : Bytes}
    {callee : World → Logged World} (hw : Settled pool w)
    (hcallee : ∀ {w₁ w₂ log}, w₁.pair.unlocked ≠ 1 → (callee w₁).run = .ok (log, w₂) →
      Outside pool w₁ w₂ ∧ ∀ e ∈ log, e.OfToken)
    (h : (pool.swapLogged block sender amount0Out amount1Out dst data callee w).run =
      .ok (log, (), w')) :
    Trace w.reserves log w'.reserves := by
  apply lockLogged_trace hw h
  intro w w' log hw hlocked h
  simp only [↓run_monadLift_bind_ok_iff, ↓run_emit_bind_ok_iff, run_bind_ok_iff, run_pure_ok_iff,
    Prod.mk.injEq, true_and, require_ok_iff, checkedMul_ok_iff] at h
  obtain ⟨_, htaken, _, ⟨hlt₀, hlt₁⟩, _, -, token0, hpaid₀, token1, hpaid₁, log₁, w₁, hcall, _,
    ⟨in₀, hin₀, in₁, hin₁, _, hpaid, x₀, hx₀, x₁, hx₁, _, ⟨-, rfl⟩, _, ⟨-, rfl⟩, _, ⟨-, rfl⟩, _, hk,
    log₂, p, hupdate, _, ⟨_, ⟨rfl, rfl⟩, rfl⟩, rfl⟩, rfl⟩ := h
  obtain ⟨rfl, h₀, h₁⟩ := updateLogged_ok hupdate
  have hcalled : Outside pool { w with token0, token1 } w₁ ∧ ∀ e ∈ log₁, e.OfToken := by
    unfold Pool.callLogged at hcall
    split_ifs at hcall
    · exact hcallee (by simp [hlocked]) hcall
    · obtain ⟨rfl, rfl⟩ := run_pure_ok_iff.mp hcall
      exact ⟨.refl _ _, List.forall_mem_nil _⟩
  obtain ⟨hout, htoken⟩ := hcalled
  -- What the pair had is there after the callback, less what it paid out.
  have hkept₀ := hout.token0.balance (payOut_unapproved hpaid₀ hw.unapproved0)
  have hkept₁ := hout.token1.balance (payOut_unapproved hpaid₁ hw.unapproved1)
  have hleft₀ := payOut_left hpaid₀
  have hleft₁ := payOut_left hpaid₁
  have hcovered₀ : w.pair.reserve0 ≤ w.token0.balanceOf pool.pair := hw.covered0
  have hcovered₁ : w.pair.reserve1 ≤ w.token1.balanceOf pool.pair := hw.covered1
  have hbalance₀ : w.pair.reserve0 - amount0Out ≤ pool.balance0 w₁ := by
    change _ ≤ w₁.token0.balanceOf pool.pair
    dsimp only at hkept₀
    omega
  have hbalance₁ : w.pair.reserve1 - amount1Out ≤ pool.balance1 w₁ := by
    change _ ≤ w₁.token1.balanceOf pool.pair
    dsimp only at hkept₁
    omega
  have hin₀ := Pool.amountIn_ok hin₀
  have hin₁ := Pool.amountIn_ok hin₁
  rw [Pool.balanceAdjusted_ok hx₀, Pool.balanceAdjusted_ok hx₁] at hk
  have hreserves : (p.reserve0, p.reserve1) = (pool.balance0 w₁, pool.balance1 w₁) := Prod.ext h₀ h₁
  apply (Trace.of_token htoken _).append
  apply Trace.swap sender dst
  · exact ⟨hpaid, htaken, hlt₀, hlt₁, by omega, by omega, hk⟩
  · change Trace _ [] (p.reserve0, p.reserve1)
    rw [hreserves]
    exact .nil _

theorem poolSyncLogged_trace (hw : Settled pool w)
    (h : (pool.syncLogged block w).run = .ok (log, (), w')) :
    Trace w.reserves log w'.reserves := by
  apply lockLogged_trace hw h
  intro w w' log hw _ h
  simp only [run_bind_ok_iff, run_pure_ok_iff, Prod.mk.injEq, true_and] at h
  obtain ⟨log, p, hupdate, _, ⟨rfl, rfl⟩, rfl⟩ := h
  obtain ⟨rfl, h₀, h₁⟩ := updateLogged_ok hupdate
  have hreserves : (p.reserve0, p.reserve1) = (pool.balance0 w, pool.balance1 w) := Prod.ext h₀ h₁
  apply Trace.sync hw.covered0 hw.covered1
  change Trace _ [] (p.reserve0, p.reserve1)
  rw [hreserves]
  exact .nil _

end Locked

/-! ### Calls -/

section Execution

variable {pool : Pool} {keccak256 : Bytes → Bytes} {ecrecover : Bytes → Signature → Address}
  {block : Block} {sender : Address} {w w' : World} {log : List PairEvent}

/-- While the pair is locked only the liquidity token emits events. -/
theorem executeLogged_locked {c : Call pool} (hlocked : w.pair.unlocked ≠ 1)
    (h : (executeLogged keccak256 ecrecover block sender c w).run = .ok (log, w')) :
    ∀ e ∈ log, e.OfToken := by
  cases c <;> simp only [executeLogged, run_bind_ok_iff, run_monadLift_ok_iff,
    run_pure_ok_iff] at h
  case mint dst =>
    obtain ⟨_, ⟨l, _⟩, h, -⟩ := h
    exact absurd (lockLogged_open h) hlocked
  case burn dst =>
    obtain ⟨_, ⟨amounts, _⟩, h, -⟩ := h
    exact absurd (lockLogged_open h) hlocked
  case swap amount0Out amount1Out dst data callback =>
    obtain ⟨_, ⟨_, _⟩, h, -⟩ := h
    exact absurd (lockLogged_open h) hlocked
  case sync =>
    obtain ⟨_, ⟨_, _⟩, h, -⟩ := h
    exact absurd (lockLogged_open h) hlocked
  case liquidity call =>
    obtain ⟨log, t, h, _, ⟨rfl, -⟩, rfl⟩ := h
    rw [List.append_nil]
    exact (applyLogged_ofToken call).forall_mem h
  case permit message signature =>
    obtain ⟨log, p, h, _, ⟨rfl, -⟩, rfl⟩ := h
    rw [List.append_nil]
    exact permitLogged_ofToken.forall_mem h
  all_goals
    obtain ⟨_, _, ⟨rfl, -⟩, _, ⟨rfl, -⟩, rfl⟩ := h
    exact List.forall_mem_nil _

theorem executeAllLogged_locked (callback : List (Call pool)) (hlocked : w.pair.unlocked ≠ 1) :
    ∀ e ∈ (executeAllLogged keccak256 ecrecover block sender callback w).1, e.OfToken := by
  induction callback generalizing w with
  | nil =>
    rw [executeAllLogged]
    exact List.forall_mem_nil _
  | cons c callback ih =>
    rw [executeAllLogged]
    cases h : (executeLogged keccak256 ecrecover block sender c w).run with
    | error e => exact ih hlocked
    | ok r =>
      have hplain := plain_of_run h
      rw [executeLogged_plain] at hplain
      have hout := execute_locked hlocked hplain
      intro e he
      rcases List.mem_append.mp he with he | he
      · exact executeLogged_locked hlocked h e he
      · exact ih (hout.unlocked ▸ hlocked) e he

theorem executeLogged_trace {c : Call pool} (hw : Settled pool w)
    (h : (executeLogged keccak256 ecrecover block sender c w).run = .ok (log, w')) :
    Trace w.reserves log w'.reserves := by
  cases c <;> simp only [executeLogged, run_bind_ok_iff, run_monadLift_ok_iff,
    run_pure_ok_iff] at h
  case mint dst =>
    obtain ⟨log, ⟨l, _⟩, h, _, ⟨rfl, rfl⟩, rfl⟩ := h
    rw [List.append_nil]
    exact poolMintLogged_trace hw h
  case burn dst =>
    obtain ⟨log, ⟨amounts, _⟩, h, _, ⟨rfl, rfl⟩, rfl⟩ := h
    rw [List.append_nil]
    exact poolBurnLogged_trace hw h
  case swap amount0Out amount1Out dst data callback =>
    obtain ⟨log, ⟨_, _⟩, h, _, ⟨rfl, rfl⟩, rfl⟩ := h
    rw [List.append_nil]
    apply poolSwapLogged_trace hw _ h
    intro w₁ w₂ log hlocked hcall
    have hevents : ∀ e ∈ (executeAllLogged keccak256 ecrecover block dst callback w₁).1,
        e.OfToken := executeAllLogged_locked callback hlocked
    have hsame := executeAllLogged_snd keccak256 ecrecover block dst callback w₁
    obtain ⟨rfl, rfl⟩ := Prod.mk.inj (Except.ok.inj hcall)
    rw [hsame]
    exact ⟨executeAll_locked callback w₁ hlocked, hevents⟩
  case skim dst =>
    obtain ⟨_, ⟨_, _⟩, ⟨rfl, h⟩, _, ⟨rfl, rfl⟩, rfl⟩ := h
    obtain ⟨-, w₁, hbody, rfl⟩ := lock_ok h
    simp only [except_bind_ok_iff, except_pure_ok_iff, Prod.mk.injEq, true_and] at hbody
    obtain ⟨_, -, token0, -, _, -, token1, -, rfl⟩ := hbody
    exact .nil _
  case sync =>
    obtain ⟨log, ⟨_, _⟩, h, _, ⟨rfl, rfl⟩, rfl⟩ := h
    rw [List.append_nil]
    exact poolSyncLogged_trace hw h
  case liquidity call =>
    obtain ⟨log, t, h, _, ⟨rfl, rfl⟩, rfl⟩ := h
    rw [List.append_nil]
    exact .of_token ((applyLogged_ofToken call).forall_mem h) _
  case permit message signature =>
    obtain ⟨log, p, h, _, ⟨rfl, rfl⟩, rfl⟩ := h
    have hplain := plain_of_run h
    rw [permitLogged_plain] at hplain
    have hout : Outside pool w (w.withPair p) := permit_outside hplain
    have hreserves : (w.withPair p).reserves = w.reserves := Prod.ext hout.reserve0 hout.reserve1
    rw [List.append_nil, hreserves]
    exact .of_token (permitLogged_ofToken.forall_mem h) _
  all_goals
    obtain ⟨_, _, ⟨rfl, -⟩, _, ⟨rfl, rfl⟩, rfl⟩ := h
    exact .nil _

theorem events_trace (hw : Settled pool w) (txs : List (Transaction pool)) :
    Trace w.reserves (events keccak256 ecrecover w txs)
      ((deliver keccak256 ecrecover).run w (txs.map Transaction.message)).reserves := by
  induction txs generalizing w with
  | nil => exact .nil _
  | cons tx txs ih =>
    have hstep : Trace w.reserves (transact keccak256 ecrecover w tx).1
        (transact keccak256 ecrecover w tx).2.reserves := by
      rcases transact_cases keccak256 ecrecover w tx with hsame | hok
      · rw [hsame]
        exact .nil _
      · exact executeLogged_trace hw hok
    have hnext := (deliver_effect keccak256 ecrecover hw tx.message).1
    rw [events, List.map_cons, Handler.run_cons, transact_snd]
    rw [transact_snd] at hstep
    exact hstep.append (ih hnext)

end Execution

/-! ### Runs -/

section Runs

variable {pool : Pool} (keccak256 : Bytes → Bytes) (ecrecover : Bytes → Signature → Address)
  (chainid : ℕ) (token0 token1 : TradedToken pool) (factory : FeeSetting)
  (txs : List (Transaction pool))

end Runs
end EnergyChain.Dex
