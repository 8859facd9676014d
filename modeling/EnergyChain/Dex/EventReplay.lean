import EnergyChain.Dex.PairEvents
import EnergyChain.Dex.PairSafety

/-!
# Replay of the events of a pair

Who follows the events of a pair from its deployment knows its reserves and
every balance of the liquidity token, provided nobody signs for the pair.
Allowances are known as bounds: what is spent of them is not announced.
-/

namespace EnergyChain.Dex

open Emitting

/-- A pair as an observer of its events sees it. -/
structure View where
  totalSupply : ℕ
  balanceOf : Address → ℕ
  approved : Address → Address → ℕ
  reserve0 : ℕ
  reserve1 : ℕ

namespace View

def initial : View :=
  { totalSupply := 0, balanceOf := fun _ => 0, approved := fun _ _ => 0, reserve0 := 0
    reserve1 := 0 }

/-- A transfer from the zero address is a mint, one from the pair to it a burn;
other liquidity sent to the zero address stays in circulation. -/
def apply (pair : Address) (view : View) : PairEvent → View
  | .transfer src dst value =>
    if src = .zero then
      { view with
        totalSupply := view.totalSupply + value
        balanceOf := Ledger.credit view.balanceOf dst value }
    else if src = pair ∧ dst = .zero then
      { view with
        totalSupply := view.totalSupply - value
        balanceOf := Ledger.debit view.balanceOf src value }
    else { view with balanceOf := Ledger.move view.balanceOf src dst value }
  | .approval owner spender value =>
    { view with
      approved :=
        Function.update view.approved owner (Function.update (view.approved owner) spender value) }
  | .sync reserve0 reserve1 => { view with reserve0, reserve1 }
  | .mint .. | .burn .. | .swap .. => view

def replay (pair : Address) (view : View) (log : List PairEvent) : View :=
  log.foldl (apply pair) view

theorem replay_append (pair : Address) (view : View) (log log' : List PairEvent) :
    view.replay pair (log ++ log') = (view.replay pair log).replay pair log' :=
  List.foldl_append

/-- The observer has the storage right. -/
structure Represents (view : View) (p : PairStorage) : Prop where
  totalSupply : view.totalSupply = p.totalSupply
  balanceOf : view.balanceOf = p.balanceOf
  reserve0 : view.reserve0 = p.reserve0
  reserve1 : view.reserve1 = p.reserve1
  allowance : ∀ owner spender, p.allowance owner spender ≤ view.approved owner spender

end View

/-! ### What a log tells -/

namespace PairEvent

def paid (a : Address) : PairEvent → ℕ
  | .transfer src _ value => if src = a then value else 0
  | _ => 0

def received (a : Address) : PairEvent → ℕ
  | .transfer _ dst value => if dst = a then value else 0
  | _ => 0

end PairEvent

/-- The log tells the observer of a step. Liquidity of the zero address or of the
pair is sent by nobody as long as neither has approved anyone. -/
structure Tells (pair : Address) (log : List PairEvent) (p p' : PairStorage) : Prop where
  zero : p.Unapproved .zero → p'.Unapproved .zero
  self : p.Unapproved pair → p'.Unapproved pair
  represents : p.Unapproved .zero → p.Unapproved pair → ∀ view : View, view.Represents p →
    (view.replay pair log).Represents p'
  accounts : ∀ a, a ≠ .zero → p'.balanceOf a + total (PairEvent.paid a) log =
    p.balanceOf a + total (PairEvent.received a) log

namespace Tells

variable {pair : Address} {log log' : List PairEvent} {p p' p'' : PairStorage}

theorem trans (h : Tells pair log p p') (h' : Tells pair log' p' p'') :
    Tells pair (log ++ log') p p'' where
  zero := h'.zero ∘ h.zero
  self := h'.self ∘ h.self
  represents hzero hself view hview := by
    rw [View.replay_append]
    apply h'.represents (h.zero hzero) (h.self hself)
    exact h.represents hzero hself view hview
  accounts a ha := by
    have hfirst := h.accounts a ha
    have hrest := h'.accounts a ha
    rw [total_append, total_append]
    omega

theorem same (htoken : p'.toERC20 = p.toERC20) (h₀ : p'.reserve0 = p.reserve0)
    (h₁ : p'.reserve1 = p.reserve1) : Tells pair [] p p' where
  zero := htoken ▸ id
  self := htoken ▸ id
  represents _ _ view hview := by
    constructor
    · rw [htoken]
      exact hview.totalSupply
    · rw [htoken]
      exact hview.balanceOf
    · rw [h₀]
      exact hview.reserve0
    · rw [h₁]
      exact hview.reserve1
    · rw [htoken]
      exact hview.allowance
  accounts a _ := by rw [htoken, total_nil, total_nil]

theorem refl (p : PairStorage) : Tells pair [] p p := same rfl rfl rfl

end Tells

/-! ### The liquidity token -/

section Token

variable {pair src dst owner spender sender : Address} {log : List PairEvent} {p : PairStorage}
  {t : ERC20} {value : ℕ}

theorem mintLogged_tells (h : (p.toERC20.mintLogged dst value).run = .ok (log, t)) :
    Tells pair log p (p.withToken t) := by
  simp only [ERC20.mintLogged, run_bind_ok_iff, run_monadLift_ok_iff, run_emit_ok_iff,
    run_pure_ok_iff] at h
  obtain ⟨_, t, ⟨rfl, hmint⟩, _, ⟨_, _, rfl, _, ⟨rfl, rfl⟩, rfl⟩, rfl⟩ := h
  obtain ⟨-, -, rfl⟩ := ERC20.mint_ok_iff.mp hmint
  constructor
  · exact id
  · exact id
  · intro _ _ view hview
    constructor
    · exact congrArg (· + value) hview.totalSupply
    · exact congrArg (Ledger.credit · dst value) hview.balanceOf
    · exact hview.reserve0
    · exact hview.reserve1
    · exact hview.allowance
  · intro a ha
    change Ledger.credit p.balanceOf dst value a + total (PairEvent.paid a) _ = _
    simp [Ledger.credit_apply, PairEvent.paid, PairEvent.received, ha.symm]

/-- The pair burns its own liquidity only. -/
theorem burnLogged_tells (hne : pair ≠ .zero)
    (h : (p.toERC20.burnLogged pair value).run = .ok (log, t)) :
    Tells pair log p (p.withToken t) := by
  simp only [ERC20.burnLogged, run_bind_ok_iff, run_monadLift_ok_iff, run_emit_ok_iff,
    run_pure_ok_iff] at h
  obtain ⟨_, t, ⟨rfl, hburn⟩, _, ⟨_, _, rfl, _, ⟨rfl, rfl⟩, rfl⟩, rfl⟩ := h
  obtain ⟨hle, -, rfl⟩ := ERC20.burn_ok_iff.mp hburn
  constructor
  · exact id
  · exact id
  · intro _ _ view hview
    have hreplay : view.replay pair ([] ++ ([.transfer pair .zero value] ++ [])) =
        { view with
          totalSupply := view.totalSupply - value
          balanceOf := Ledger.debit view.balanceOf pair value } := by
      simp [View.replay, View.apply, hne]
    rw [hreplay]
    constructor
    · exact congrArg (· - value) hview.totalSupply
    · exact congrArg (Ledger.debit · pair value) hview.balanceOf
    · exact hview.reserve0
    · exact hview.reserve1
    · exact hview.allowance
  · intro a ha
    have hpaid : Ledger.debit p.balanceOf pair value a + (if pair = a then value else 0) =
        p.balanceOf a := Ledger.debit_apply hle a
    change Ledger.debit p.balanceOf pair value a + total (PairEvent.paid a) _ =
      p.balanceOf a + total (PairEvent.received a) _
    simpa [PairEvent.paid, PairEvent.received, ha.symm] using hpaid

theorem approve_tells (hzero : owner ≠ .zero) (hself : owner ≠ pair) :
    Tells pair [.approval owner spender value] p
      (p.withToken (p.toERC20.approve owner spender value)) where
  zero := (ERC20.Keeps.approve hzero.symm).unapproved
  self := (ERC20.Keeps.approve hself.symm).unapproved
  represents _ _ view hview := by
    refine ⟨hview.totalSupply, hview.balanceOf, hview.reserve0, hview.reserve1, ?_⟩
    intro o s
    change Function.update p.allowance owner (Function.update (p.allowance owner) spender value) o s ≤
      Function.update view.approved owner (Function.update (view.approved owner) spender value) o s
    by_cases ho : o = owner
    · subst ho
      by_cases hs : s = spender
      · subst hs
        simp
      · simpa [hs] using hview.allowance o s
    · simpa [ho] using hview.allowance o s
  accounts _ _ := rfl

/-- What the sender spends of its allowance is not announced. -/
theorem spendAllowance_tells (h : p.toERC20.spendAllowance sender src value = .ok t) :
    Tells pair [] p (p.withToken t) := by
  have hkeeps : ∀ a, p.Unapproved a → t.Unapproved a := by
    intro a hu
    by_cases hsrc : a = src
    · subst hsrc
      exact (ERC20.Keeps.spendAllowance_unapproved hu h).2.unapproved hu
    · exact (ERC20.Keeps.spendAllowance hsrc h).unapproved hu
  have hsame : t.balanceOf = p.balanceOf := by
    rcases ERC20.spendAllowance_ok h with ⟨-, rfl⟩ | ⟨-, rfl⟩ <;> rfl
  refine ⟨hkeeps .zero, hkeeps pair, ?_, fun a _ => congrFun hsame a⟩
  intro _ _ view hview
  rcases ERC20.spendAllowance_ok h with ⟨-, rfl⟩ | ⟨hle, rfl⟩
  · exact ⟨hview.totalSupply, hview.balanceOf, hview.reserve0, hview.reserve1, hview.allowance⟩
  · refine ⟨hview.totalSupply, hview.balanceOf, hview.reserve0, hview.reserve1, ?_⟩
    intro o s
    have hbound := hview.allowance o s
    change Function.update p.allowance src
      (Function.update (p.allowance src) sender (p.allowance src sender - value)) o s ≤
        view.approved o s
    by_cases ho : o = src
    · subst ho
      by_cases hs : s = sender
      · subst hs
        simp only [Function.update_self]
        exact (Nat.sub_le _ _).trans hbound
      · simpa [hs] using hbound
    · simpa [ho] using hbound

theorem transferLogged_accounts (h : (p.toERC20.transferLogged src dst value).run = .ok (log, t))
    (a : Address) : t.balanceOf a + total (PairEvent.paid a) log =
      p.balanceOf a + total (PairEvent.received a) log := by
  simp only [ERC20.transferLogged, run_bind_ok_iff, run_monadLift_ok_iff, run_emit_ok_iff,
    run_pure_ok_iff] at h
  obtain ⟨_, t, ⟨rfl, htransfer⟩, _, ⟨_, _, rfl, _, ⟨rfl, rfl⟩, rfl⟩, rfl⟩ := h
  obtain ⟨hle, -, rfl⟩ := ERC20.transfer_ok_iff.mp htransfer
  have hmoved : Ledger.move p.balanceOf src dst value a + (if src = a then value else 0) =
      p.balanceOf a + if dst = a then value else 0 := Ledger.move_apply hle dst a
  simpa [PairEvent.paid, PairEvent.received] using hmoved

/-- Neither the zero address nor the pair sends anything but nothing. -/
theorem transferLogged_tells (hsender : src ≠ .zero ∧ src ≠ pair ∨ value = 0)
    (h : (p.toERC20.transferLogged src dst value).run = .ok (log, t)) :
    Tells pair log p (p.withToken t) := by
  have haccounts := transferLogged_accounts h
  simp only [ERC20.transferLogged, run_bind_ok_iff, run_monadLift_ok_iff, run_emit_ok_iff,
    run_pure_ok_iff] at h
  obtain ⟨_, t, ⟨rfl, htransfer⟩, _, ⟨_, _, rfl, _, ⟨rfl, rfl⟩, rfl⟩, rfl⟩ := h
  obtain ⟨-, -, rfl⟩ := ERC20.transfer_ok_iff.mp htransfer
  constructor
  · exact id
  · exact id
  · intro _ _ view hview
    have hreplay : view.replay pair ([] ++ ([.transfer src dst value] ++ [])) =
        { view with balanceOf := Ledger.move view.balanceOf src dst value } := by
      rcases hsender with ⟨hzero, hself⟩ | rfl
      · simp [View.replay, View.apply, hzero, hself]
      · simp only [View.replay, View.apply, List.nil_append, List.append_nil, List.foldl_cons,
          List.foldl_nil, Ledger.move_zero]
        split_ifs
        · simp [Ledger.credit]
        · simp [Ledger.debit]
        · rfl
    rw [hreplay]
    constructor
    · exact hview.totalSupply
    · exact congrArg (Ledger.move · src dst value) hview.balanceOf
    · exact hview.reserve0
    · exact hview.reserve1
    · exact hview.allowance
  · exact fun a _ => haccounts a

theorem transferFromLogged_tells
    (h : (p.toERC20.transferFromLogged sender src dst value).run = .ok (log, t)) :
    Tells pair log p (p.withToken t) := by
  simp only [ERC20.transferFromLogged, run_bind_ok_iff, run_monadLift_ok_iff] at h
  obtain ⟨_, t₁, ⟨rfl, hspend⟩, log, hsent, rfl⟩ := h
  have hspent : Tells pair [] p (p.withToken t₁) := spendAllowance_tells hspend
  -- Of the two accounts only nothing is spent, as long as they have approved nobody.
  have hvalue : p.Unapproved .zero → p.Unapproved pair →
      src ≠ .zero ∧ src ≠ pair ∨ value = 0 := by
    intro hzero hself
    by_cases hsrc : src ≠ .zero ∧ src ≠ pair
    · exact Or.inl hsrc
    · right
      rcases not_and_or.mp hsrc with hsrc | hsrc
      · obtain rfl := not_not.mp hsrc
        exact (ERC20.Keeps.spendAllowance_unapproved hzero hspend).1
      · obtain rfl := not_not.mp hsrc
        exact (ERC20.Keeps.spendAllowance_unapproved hself hspend).1
  have hkept : t.allowance = t₁.allowance := by
    have hplain : t₁.transfer src dst value = .ok t := by
      rw [← ERC20.transferLogged_plain]
      exact plain_of_run hsent
    obtain ⟨-, -, rfl⟩ := ERC20.transfer_ok_iff.mp hplain
    rfl
  constructor
  · intro hzero spender
    exact hkept ▸ hspent.zero hzero spender
  · intro hself spender
    exact hkept ▸ hspent.self hself spender
  · intro hzero hself view hview
    have htold : Tells pair log (p.withToken t₁) ((p.withToken t₁).withToken t) :=
      transferLogged_tells (hvalue hzero hself) hsent
    exact (hspent.trans htold).represents hzero hself view hview
  · intro a ha
    have hkept := hspent.accounts a ha
    have hmoved : t.balanceOf a + total (PairEvent.paid a) log =
        t₁.balanceOf a + total (PairEvent.received a) log :=
      @transferLogged_accounts src dst log (p.withToken t₁) t value hsent a
    exact hmoved.trans (congrArg (· + total (PairEvent.received a) log) hkept)

end Token

/-! ### Reserves, fee and liquidity -/

section Internal

variable {pair dst : Address} {log : List PairEvent} {p p' : PairStorage} {block : Block}
  {b₀ b₁ r₀ r₁ a₀ a₁ v : ℕ}

theorem updateLogged_tells (h : (updateLogged block b₀ b₁ r₀ r₁ p).run = .ok (log, p')) :
    Tells pair log p p' := by
  simp only [updateLogged, run_bind_ok_iff, run_monadLift_ok_iff, run_emit_ok_iff,
    run_pure_ok_iff] at h
  obtain ⟨_, p', ⟨rfl, hupdate⟩, _, ⟨_, _, rfl, _, ⟨rfl, rfl⟩, rfl⟩, rfl⟩ := h
  obtain ⟨-, -, htoken, -⟩ := update_ok hupdate
  constructor
  · exact htoken ▸ id
  · exact htoken ▸ id
  · intro _ _ view hview
    constructor
    · rw [htoken]
      exact hview.totalSupply
    · rw [htoken]
      exact hview.balanceOf
    · rfl
    · rfl
    · rw [htoken]
      exact hview.allowance
  · intro a _
    rw [htoken]
    rfl

theorem mintPositiveLogged_tells (h : (mintPositiveLogged dst v p).run = .ok (log, p')) :
    Tells pair log p p' := by
  unfold mintPositiveLogged at h
  split_ifs at h
  · simp only [run_bind_ok_iff, run_pure_ok_iff] at h
    obtain ⟨log, t, hmint, _, ⟨rfl, rfl⟩, rfl⟩ := h
    rw [List.append_nil]
    exact mintLogged_tells hmint
  · obtain ⟨rfl, rfl⟩ := run_pure_ok_iff.mp h
    exact .refl _

theorem mintGrowthFeeLogged_tells (h : (mintGrowthFeeLogged dst r₀ r₁ p).run = .ok (log, p')) :
    Tells pair log p p' := by
  simp only [mintGrowthFeeLogged, run_bind_ok_iff, run_monadLift_ok_iff] at h
  obtain ⟨_, k, ⟨rfl, -⟩, _, ⟨_, rootK, ⟨rfl, -⟩, _, ⟨_, rootKLast, ⟨rfl, -⟩, log, h, rfl⟩, rfl⟩,
    rfl⟩ := h
  simp only [List.nil_append]
  split_ifs at h
  · simp only [run_bind_ok_iff, run_monadLift_ok_iff] at h
    obtain ⟨_, l, ⟨rfl, -⟩, log, hmint, rfl⟩ := h
    exact mintPositiveLogged_tells hmint
  · obtain ⟨rfl, rfl⟩ := run_pure_ok_iff.mp h
    exact .refl _

theorem mintFeeLogged_tells {factory : FeeSetting} {feeOn : Bool}
    (h : (mintFeeLogged factory r₀ r₁ p).run = .ok (log, feeOn, p')) : Tells pair log p p' := by
  unfold mintFeeLogged at h
  split_ifs at h
  · simp only [run_bind_ok_iff, run_pure_ok_iff, Prod.mk.injEq] at h
    obtain ⟨log, _, hmint, _, ⟨rfl, -, rfl⟩, rfl⟩ := h
    rw [List.append_nil]
    exact mintGrowthFeeLogged_tells hmint
  · simp only [run_bind_ok_iff, run_pure_ok_iff, Prod.mk.injEq] at h
    obtain ⟨_, _, ⟨rfl, rfl⟩, _, ⟨rfl, -, rfl⟩, rfl⟩ := h
    exact .refl _
  · obtain ⟨rfl, hp⟩ := run_pure_ok_iff.mp h
    obtain ⟨-, rfl⟩ := Prod.mk.inj hp
    exact .same rfl rfl rfl
  · obtain ⟨rfl, hp⟩ := run_pure_ok_iff.mp h
    obtain ⟨-, rfl⟩ := Prod.mk.inj hp
    exact .refl _

theorem mintLiquidityLogged_tells {l : ℕ}
    (h : (mintLiquidityLogged a₀ a₁ r₀ r₁ p).run = .ok (log, l, p')) : Tells pair log p p' := by
  unfold mintLiquidityLogged at h
  split_ifs at h
  · simp only [run_bind_ok_iff, run_monadLift_ok_iff, run_pure_ok_iff, Prod.mk.injEq] at h
    obtain ⟨_, _, ⟨rfl, -⟩, _, ⟨_, _, ⟨rfl, -⟩, _, ⟨_, _, ⟨rfl, -⟩, _, ⟨log, t, hmint, _,
      ⟨rfl, -, rfl⟩, rfl⟩, rfl⟩, rfl⟩, rfl⟩ := h
    simp only [List.nil_append, List.append_nil]
    exact mintLogged_tells hmint
  · simp only [run_bind_ok_iff, run_monadLift_ok_iff, run_pure_ok_iff, Prod.mk.injEq] at h
    obtain ⟨_, _, ⟨rfl, -⟩, _, ⟨_, _, ⟨rfl, -⟩, _, ⟨_, _, ⟨rfl, -⟩, _, ⟨_, _, ⟨rfl, -⟩, _,
      ⟨rfl, -, rfl⟩, rfl⟩, rfl⟩, rfl⟩, rfl⟩ := h
    exact .refl _

theorem recordK_tells {feeOn : Bool} (h : recordK feeOn p = .ok p') : Tells pair [] p p' := by
  unfold recordK at h
  split_ifs at h
  · simp only [except_bind_ok_iff, except_pure_ok_iff] at h
    obtain ⟨k, -, rfl⟩ := h
    exact .same rfl rfl rfl
  · obtain rfl := Except.ok.inj h
    exact .refl _

end Internal

/-! ### The locked functions -/

section Locked

variable {pool : Pool} {w w' : World} {log : List PairEvent} {block : Block}
  {sender dst : Address}

theorem lockLogged_tells {α : Type} {r : α} {pair : Address} {body : World → Logged (α × World)}
    (h : (lockLogged body w).run = .ok (log, r, w'))
    (hbody : ∀ {w₁ w₂ log}, (body w₁).run = .ok (log, r, w₂) → Tells pair log w₁.pair w₂.pair) :
    Tells pair log w.pair w'.pair := by
  unfold lockLogged at h
  simp only [↓run_monadLift_bind_ok_iff, run_bind_ok_iff, run_pure_ok_iff, Prod.mk.injEq] at h
  obtain ⟨_, -, log, ⟨_, w₁⟩, hrun, _, ⟨rfl, rfl, rfl⟩, rfl⟩ := h
  have hin : Tells pair [] w.pair { w.pair with unlocked := 0 } := .same rfl rfl rfl
  have hout : Tells pair [] w₁.pair { w₁.pair with unlocked := 1 } := .same rfl rfl rfl
  exact (hin.trans (hbody hrun)).trans hout

theorem named_tells {pair : Address} {e : PairEvent} (p : PairStorage)
    (he : ∀ view : View, view.apply pair e = view)
    (hquiet : ∀ a, e.paid a = 0 ∧ e.received a = 0) : Tells pair [e] p p where
  zero := id
  self := id
  represents _ _ view hview := by
    change (view.apply pair e).Represents p
    rw [he]
    exact hview
  accounts a _ := by
    rw [total_cons, total_cons, (hquiet a).1, (hquiet a).2, total_nil, total_nil]

theorem poolMintLogged_tells {l : ℕ}
    (h : (pool.mintLogged block sender dst w).run = .ok (log, l, w')) :
    Tells pool.pair log w.pair w'.pair := by
  apply lockLogged_tells h
  intro w w' log h
  simp only [↓run_monadLift_bind_ok_iff, ↓run_emit_bind_ok_iff, run_bind_ok_iff, run_pure_ok_iff,
    Prod.mk.injEq] at h
  obtain ⟨a₀, -, a₁, -, log₁, ⟨feeOn, p₁⟩, hfee, _, ⟨log₂, ⟨l, p₂⟩, hliquidity, _, ⟨_, -, log₃, t,
    hmint, _, ⟨log₄, p₃, hupdate, _, ⟨p₄, hrecord, _, ⟨rfl, rfl, rfl⟩, rfl⟩, rfl⟩, rfl⟩, rfl⟩,
    rfl⟩ := h
  apply (mintFeeLogged_tells hfee).trans
  apply (mintLiquidityLogged_tells hliquidity).trans
  apply (mintLogged_tells hmint).trans
  apply (updateLogged_tells hupdate).trans
  exact (recordK_tells hrecord).trans (named_tells p₄ (fun _ => rfl) fun _ => ⟨rfl, rfl⟩)

theorem poolBurnLogged_tells {amounts : ℕ × ℕ}
    (h : (pool.burnLogged block sender dst w).run = .ok (log, amounts, w')) :
    Tells pool.pair log w.pair w'.pair := by
  apply lockLogged_tells h
  intro w w' log h
  simp only [↓run_monadLift_bind_ok_iff, ↓run_emit_bind_ok_iff, run_bind_ok_iff, run_pure_ok_iff,
    Prod.mk.injEq] at h
  obtain ⟨log₁, ⟨feeOn, p₁⟩, hfee, _, ⟨_, -, a₀, -, _, -, a₁, -, _, -, log₂, t, hburn, _,
    ⟨token0, -, token1, -, log₃, p₂, hupdate, _, ⟨p₃, hrecord, _, ⟨rfl, rfl, rfl⟩, rfl⟩, rfl⟩,
    rfl⟩, rfl⟩ := h
  apply (mintFeeLogged_tells hfee).trans
  apply (burnLogged_tells pool.pair_ne_zero hburn).trans
  apply (updateLogged_tells hupdate).trans
  exact (recordK_tells hrecord).trans (named_tells p₃ (fun _ => rfl) fun _ => ⟨rfl, rfl⟩)

theorem poolSwapLogged_tells {amount0Out amount1Out : ℕ} {data : Bytes}
    {callee : World → Logged World}
    (hcallee : ∀ {w₁ w₂ log}, (callee w₁).run = .ok (log, w₂) →
      Tells pool.pair log w₁.pair w₂.pair)
    (h : (pool.swapLogged block sender amount0Out amount1Out dst data callee w).run =
      .ok (log, (), w')) :
    Tells pool.pair log w.pair w'.pair := by
  apply lockLogged_tells h
  intro w w' log h
  simp only [↓run_monadLift_bind_ok_iff, ↓run_emit_bind_ok_iff, run_bind_ok_iff, run_pure_ok_iff,
    Prod.mk.injEq, true_and] at h
  obtain ⟨_, -, _, -, _, -, token0, -, token1, -, log₁, w₁, hcall, _, ⟨in₀, -, in₁, -, _, -, x₀, -,
    x₁, -, _, -, _, -, _, -, _, -, log₂, p, hupdate, _, ⟨_, ⟨rfl, rfl⟩, rfl⟩, rfl⟩, rfl⟩ := h
  have hcalled : Tells pool.pair log₁ w.pair w₁.pair := by
    unfold Pool.callLogged at hcall
    split_ifs at hcall
    · exact @hcallee { w with token0, token1 } w₁ log₁ hcall
    · obtain ⟨rfl, rfl⟩ := run_pure_ok_iff.mp hcall
      exact .refl _
  apply hcalled.trans
  apply (updateLogged_tells hupdate).trans
  exact named_tells p (fun _ => rfl) fun _ => ⟨rfl, rfl⟩

theorem poolSyncLogged_tells (h : (pool.syncLogged block w).run = .ok (log, (), w')) :
    Tells pool.pair log w.pair w'.pair := by
  apply lockLogged_tells h
  intro w w' log h
  simp only [run_bind_ok_iff, run_pure_ok_iff, Prod.mk.injEq, true_and] at h
  obtain ⟨log, p, hupdate, _, ⟨rfl, rfl⟩, rfl⟩ := h
  rw [List.append_nil]
  exact updateLogged_tells hupdate

theorem skim_tells (h : pool.skim dst w = .ok ((), w')) : Tells pool.pair [] w.pair w'.pair := by
  obtain ⟨-, w₁, hbody, rfl⟩ := lock_ok h
  simp only [except_bind_ok_iff, except_pure_ok_iff, Prod.mk.injEq, true_and] at hbody
  obtain ⟨_, -, token0, -, _, -, token1, -, rfl⟩ := hbody
  exact .same rfl rfl rfl

end Locked

/-! ### Calls -/

section Execution

variable {pool : Pool} {keccak256 : Bytes → Bytes} {ecrecover : Bytes → Signature → Address}

theorem applyLogged_tells {p : PairStorage} {t : ERC20} {log : List PairEvent}
    {call : TransferCall pool} (h : (call.applyLogged p.toERC20).run = .ok (log, t)) :
    Tells pool.pair log p (p.withToken t) := by
  cases call with
  | approve sender spender value =>
    simp only [TransferCall.applyLogged, ERC20.approveLogged, run_emit_bind_ok_iff,
      run_pure_ok_iff] at h
    obtain ⟨_, ⟨rfl, rfl⟩, rfl⟩ := h
    exact approve_tells sender.ne_zero sender.ne_pair
  | transfer sender dst value =>
    exact transferLogged_tells (Or.inl ⟨sender.ne_zero, sender.ne_pair⟩) h
  | transferFrom sender src dst value => exact transferFromLogged_tells h

theorem permitLogged_tells {block : Block} {m : PermitMessage} {signature : Signature}
    {p p' : PairStorage} {log : List PairEvent}
    (hkey : ∀ digest signature, ecrecover digest signature ≠ pool.pair)
    (h : (p.permitLogged keccak256 ecrecover block m signature).run = .ok (log, p')) :
    Tells pool.pair log p p' := by
  simp only [PairStorage.permitLogged, PairStorage.permit, ↓run_monadLift_bind_ok_iff,
    ↓run_emit_bind_ok_iff, run_pure_ok_iff, except_bind_ok_iff, require_ok_iff,
    except_pure_ok_iff] at h
  obtain ⟨_, ⟨-, -, nonce, -, -, ⟨hzero, howner⟩, rfl⟩, _, ⟨rfl, rfl⟩, rfl⟩ := h
  have hself := hkey (m.digest keccak256 p.domainSeparator (p.nonces m.owner)) signature
  rw [howner] at hzero hself
  have hnonce : Tells pool.pair [] p
      { p with nonces := Function.update p.nonces m.owner nonce } := .same rfl rfl rfl
  exact hnonce.trans (approve_tells hzero hself)

variable {block : Block}

mutual

theorem executeLogged_tells
    (hkey : ∀ digest signature, ecrecover digest signature ≠ pool.pair) :
    ∀ {sender : Address} (c : Call pool) {w w' : World} {log : List PairEvent},
    (executeLogged keccak256 ecrecover block sender c w).run = .ok (log, w') →
      Tells pool.pair log w.pair w'.pair
  | _, .mint dst, w, w', log, h => by
    simp only [executeLogged, run_bind_ok_iff, run_pure_ok_iff] at h
    obtain ⟨log, ⟨l, _⟩, h, _, ⟨rfl, rfl⟩, rfl⟩ := h
    rw [List.append_nil]
    exact poolMintLogged_tells h
  | _, .burn dst, w, w', log, h => by
    simp only [executeLogged, run_bind_ok_iff, run_pure_ok_iff] at h
    obtain ⟨log, ⟨amounts, _⟩, h, _, ⟨rfl, rfl⟩, rfl⟩ := h
    rw [List.append_nil]
    exact poolBurnLogged_tells h
  | _, .swap amount0Out amount1Out dst data callback, w, w', log, h => by
    simp only [executeLogged, run_bind_ok_iff, run_pure_ok_iff] at h
    obtain ⟨log, ⟨_, _⟩, h, _, ⟨rfl, rfl⟩, rfl⟩ := h
    rw [List.append_nil]
    refine poolSwapLogged_tells (fun {w₁ w₂ log} hcall => ?_) h
    have hcallback : Tells pool.pair
        (executeAllLogged keccak256 ecrecover block dst callback w₁).1 w₁.pair
        (executeAllLogged keccak256 ecrecover block dst callback w₁).2.pair :=
      executeAllLogged_tells hkey callback
    obtain ⟨rfl, rfl⟩ := Prod.mk.inj (Except.ok.inj hcall)
    exact hcallback
  | _, .skim dst, w, w', log, h => by
    simp only [executeLogged, run_monadLift_bind_ok_iff, run_pure_ok_iff] at h
    obtain ⟨⟨_, _⟩, h, rfl, rfl⟩ := h
    exact skim_tells h
  | _, .sync, w, w', log, h => by
    simp only [executeLogged, run_bind_ok_iff, run_pure_ok_iff] at h
    obtain ⟨log, ⟨_, _⟩, h, _, ⟨rfl, rfl⟩, rfl⟩ := h
    rw [List.append_nil]
    exact poolSyncLogged_tells h
  | _, .liquidity call, w, w', log, h => by
    simp only [executeLogged, run_bind_ok_iff, run_pure_ok_iff] at h
    obtain ⟨log, t, h, _, ⟨rfl, rfl⟩, rfl⟩ := h
    rw [List.append_nil]
    exact applyLogged_tells h
  | _, .permit message signature, w, w', log, h => by
    simp only [executeLogged, run_bind_ok_iff, run_pure_ok_iff] at h
    obtain ⟨log, p, h, _, ⟨rfl, rfl⟩, rfl⟩ := h
    rw [List.append_nil]
    exact permitLogged_tells hkey h
  | _, .token0 call, w, w', log, h => by
    simp only [executeLogged, run_monadLift_bind_ok_iff, run_pure_ok_iff] at h
    obtain ⟨token0, -, rfl, rfl⟩ := h
    exact .refl _
  | _, .token1 call, w, w', log, h => by
    simp only [executeLogged, run_monadLift_bind_ok_iff, run_pure_ok_iff] at h
    obtain ⟨token1, -, rfl, rfl⟩ := h
    exact .refl _
  | _, .setFeeTo sender feeTo, w, w', log, h => by
    simp only [executeLogged, run_monadLift_bind_ok_iff, run_pure_ok_iff] at h
    obtain ⟨factory, -, rfl, rfl⟩ := h
    exact .refl _
  | _, .setFeeToSetter sender feeToSetter, w, w', log, h => by
    simp only [executeLogged, run_monadLift_bind_ok_iff, run_pure_ok_iff] at h
    obtain ⟨factory, -, rfl, rfl⟩ := h
    exact .refl _

theorem executeAllLogged_tells
    (hkey : ∀ digest signature, ecrecover digest signature ≠ pool.pair) :
    ∀ {sender : Address} (cs : List (Call pool)) {w : World},
    Tells pool.pair (executeAllLogged keccak256 ecrecover block sender cs w).1 w.pair
      (executeAllLogged keccak256 ecrecover block sender cs w).2.pair
  | _, [], w => by
    rw [executeAllLogged]
    exact .refl _
  | sender, c :: cs, w => by
    have hstep : ∀ {w' log},
        (executeLogged keccak256 ecrecover block sender c w).run = .ok (log, w') →
          Tells pool.pair log w.pair w'.pair := executeLogged_tells hkey c
    have hrest : ∀ {w}, Tells pool.pair
        (executeAllLogged keccak256 ecrecover block sender cs w).1 w.pair
          (executeAllLogged keccak256 ecrecover block sender cs w).2.pair :=
      executeAllLogged_tells hkey cs
    rw [executeAllLogged]
    cases h : (executeLogged keccak256 ecrecover block sender c w).run with
    | error e => exact hrest
    | ok r => exact (hstep h).trans hrest

end

theorem transact_tells (hkey : ∀ digest signature, ecrecover digest signature ≠ pool.pair)
    (w : World) (tx : Transaction pool) :
    Tells pool.pair (transact keccak256 ecrecover w tx).1 w.pair
      (transact keccak256 ecrecover w tx).2.pair := by
  rcases transact_cases keccak256 ecrecover w tx with hsame | hok
  · rw [hsame]
    exact .refl _
  · exact executeLogged_tells hkey tx.call hok

theorem events_tell (hkey : ∀ digest signature, ecrecover digest signature ≠ pool.pair)
    (w : World) (txs : List (Transaction pool)) :
    Tells pool.pair (events keccak256 ecrecover w txs) w.pair
      ((deliver keccak256 ecrecover).run w (txs.map Transaction.message)).pair := by
  induction txs generalizing w with
  | nil => exact .refl _
  | cons tx txs ih =>
    rw [events, List.map_cons, Handler.run_cons, ← transact_snd]
    exact (transact_tells hkey w tx).trans (ih _)

end Execution

/-! ### Runs -/

/-- Who has followed a pair from its deployment knows its reserves, the supply and
all balances of its liquidity token, and a bound on each allowance. -/
theorem replay_represents {pool : Pool} (keccak256 : Bytes → Bytes)
    (ecrecover : Bytes → Signature → Address)
    (hkey : ∀ digest signature, ecrecover digest signature ≠ pool.pair) (chainid : ℕ)
    (token0 token1 : TradedToken pool) (factory : FeeSetting) (txs : List (Transaction pool)) :
    (View.initial.replay pool.pair (events keccak256 ecrecover
      (.deployed keccak256 chainid token0 token1 factory) txs)).Represents
      (reached keccak256 ecrecover chainid token0 token1 factory
        (txs.map Transaction.message)).pair := by
  have htold := @events_tell pool keccak256 ecrecover hkey
    (.deployed keccak256 chainid token0 token1 factory) txs
  apply htold.represents
  · exact fun _ => rfl
  · exact fun _ => rfl
  · exact ⟨rfl, rfl, rfl, rfl, fun _ _ => le_rfl⟩

/-- The first mint and a flash swap, called by the account at four. -/
def sampleTransactions : List (Transaction samplePool) :=
  sampleMint.map (fun m => ⟨⟨4⟩, m.1, m.2⟩) ++ [⟨⟨4⟩, ⟨1700000005, 2⟩, sampleFlashSwap⟩]

def sampleEvents : List PairEvent :=
  events sampleKeccak256 sampleEcrecover
    (.deployed sampleKeccak256 262144 sampleToken sampleToken ⟨.zero, ⟨9⟩⟩) sampleTransactions

example : sampleEvents = [.transfer ⟨0⟩ ⟨0⟩ 1000, .transfer ⟨0⟩ ⟨4⟩ 9000, .sync 10000 10000,
    .mint ⟨4⟩ 10000 10000, .sync 11000 9100, .swap ⟨4⟩ 1000 0 0 900 ⟨5⟩] := by
  decide +kernel

theorem replay_sampleEvents :
    (View.initial.replay ⟨1⟩ sampleEvents).balanceOf ⟨4⟩ = 9000 ∧
      (View.initial.replay ⟨1⟩ sampleEvents).Represents
        (sampleReached (sampleTransactions.map Transaction.message)).pair :=
  ⟨by decide +kernel,
    replay_represents sampleKeccak256 sampleEcrecover (fun _ _ => samplePool.pair_ne_zero.symm) 262144
      sampleToken sampleToken ⟨.zero, ⟨9⟩⟩ sampleTransactions⟩

end EnergyChain.Dex
