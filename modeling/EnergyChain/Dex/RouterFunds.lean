import EnergyChain.Dex.RouterSwap

/-!
# What the router holds

Between calls the router has nothing. Each step of an entry point is described by
what it does to all native balances and to the token balances of the router; an
entry point leaves the router as it found it when its steps cancel out.
-/

namespace EnergyChain.Dex

open Library

variable {d : Deployment} {block : Block} {c c' : Chain} {native tokens : Address → ℕ}
  {sender dst pair token tokenA tokenB : Address} {pool : Pool} {p : PairStorage} {w : World}
  {v : ℕ}

/-! ### Receipts -/

/-- The token balances of the router after a payment, which is often not to the
router. -/
def receipt (d : Deployment) (dst token : Address) (v : ℕ) (tokens : Address → ℕ) : Address → ℕ :=
  if dst = d.router then Ledger.credit tokens token v else tokens

theorem receipt_of_ne (h : dst ≠ d.router) : receipt d dst token v tokens = tokens := if_neg h

@[simp] theorem receipt_router :
    receipt d d.router token v tokens = Ledger.credit tokens token v := if_pos rfl

theorem receipt_other {t : Address} (h : t ≠ token) : receipt d dst token v tokens t = tokens t := by
  unfold receipt
  split_ifs
  · exact Ledger.credit_of_ne h
  · rfl

theorem receipt_comm {t : Address} {u : ℕ} (h : t ≠ token) :
    receipt d dst t u (receipt d dst token v tokens) =
      receipt d dst token v (receipt d dst t u tokens) := by
  unfold receipt
  split_ifs
  · exact Ledger.credit_comm h.symm
  · rfl

theorem move_receipt {src : Address} {f : Address → ℕ} (hsrc : src ≠ d.router)
    (hf : f d.router = tokens token) :
    Ledger.move f src dst v d.router = receipt d dst token v tokens token := by
  unfold receipt
  split_ifs with hdst
  · rw [hdst, Ledger.move_target hsrc, Ledger.credit_self, hf]
  · rw [Ledger.move_of_ne hsrc.symm (Ne.symm hdst), hf]

/-- The exchange is in order, the router is not a pair and takes no protocol fee, and
these are the native balances of all accounts and the token balances of the
router. -/
structure Holding (d : Deployment) (native tokens : Address → ℕ) (c : Chain) : Prop where
  registered : c.Registered
  apart : c.poolAt d.router = none
  feeTo : c.factory.feeTo ≠ d.router
  native : c.native = native
  tokens : ∀ t, c.balanceOf t d.router = tokens t

theorem registered_congr (hfactory : c'.factory = c.factory) (hpools : c'.poolAt = c.poolAt)
    (h : c.Registered) : c'.Registered := by
  intro a b hne
  rw [hfactory] at hne ⊢
  rw [hpools]
  exact h a b hne

theorem poolAt_congr (h : c'.pairView = c.pairView) : c'.poolAt = c.poolAt := by
  funext a
  rw [Chain.poolAt, Chain.poolAt, h]

theorem poolAt_write (hp : c.contract pool.pair = .pair pool rfl p) :
    (c.write pool w).poolAt = c.poolAt := by
  funext a
  rw [Chain.poolAt, Chain.poolAt, Chain.pairView_write]
  by_cases ha : a = pool.pair
  · rw [ha, Function.update_self, Chain.pairView_pair hp]
    rfl
  · rw [Function.update_of_ne ha]

theorem callPair_factory {α : Type} {r : α} {f : Pool → World → Except Revert (α × World)}
    (h : c.callPair pair f = .ok (r, c')) : c'.factory = c.factory := by
  obtain ⟨pool, p, w, -, -, -, rfl⟩ := Chain.callPair_ok h
  rfl

theorem balanceOf_setNative : ({ c with native } : Chain).balanceOf = c.balanceOf := by
  funext t owner
  unfold Chain.balanceOf Chain.token
  cases c.contract t <;> rfl

namespace Holding

theorem pairFor_ne (h : Holding d native tokens c) (a b : Address) : pairFor c a b ≠ d.router := by
  intro heq
  have hne : c.factory.getPair a b ≠ .zero := fun hzero =>
    d.router_ne_zero (heq.symm.trans hzero)
  obtain ⟨pool, hpool, -⟩ := h.registered a b hne
  rw [show c.factory.getPair a b = d.router from heq, h.apart] at hpool
  cases hpool

theorem pool_ne (h : Holding d native tokens c) (hp : c.contract pool.pair = .pair pool rfl p) :
    pool.pair ≠ d.router := by
  intro heq
  have hpool := h.apart
  rw [← heq, Chain.poolAt_eq (Chain.pairView_pair hp)] at hpool
  cases hpool

/-! ### Token calls -/

theorem of_moved {src : Address} (h : Holding d native tokens c)
    (hm : Chain.Moved token src dst v c c') (hpools : c'.poolAt = c.poolAt)
    (hsrc : src ≠ d.router) : Holding d native (receipt d dst token v tokens) c' where
  registered := registered_congr hm.factory hpools h.registered
  apart := hpools ▸ h.apart
  feeTo := hm.factory ▸ h.feeTo
  native := hm.native.trans h.native
  tokens t := by
    by_cases ht : t = token
    · rw [ht, hm.balanceOf_token, move_receipt hsrc (h.tokens token)]
    · rw [hm.balanceOf_of_ne ht, h.tokens, receipt_other ht]

theorem pays (h : Holding d native tokens c) (hm : Chain.Moved token d.router dst v c c')
    (hpools : c'.poolAt = c.poolAt) (hdst : dst ≠ d.router) :
    Holding d native (Ledger.debit tokens token v) c' where
  registered := registered_congr hm.factory hpools h.registered
  apart := hpools ▸ h.apart
  feeTo := hm.factory ▸ h.feeTo
  native := hm.native.trans h.native
  tokens t := by
    by_cases ht : t = token
    · rw [ht, hm.balanceOf_token, Ledger.move_source hdst.symm, h.tokens, Ledger.debit_self]
    · rw [hm.balanceOf_of_ne ht, h.tokens, Ledger.debit_of_ne ht]

theorem safeTransferFrom (h : Holding d native tokens c) (hsender : sender ≠ d.router)
    (hpair : pair ≠ d.router)
    (hrun : Router.safeTransferFrom d token sender pair v c = .ok c') :
    Holding d native tokens c' := by
  unfold Router.safeTransferFrom at hrun
  split at hrun
  · case _ c₁ htransfer =>
    obtain rfl := Except.ok.inj hrun
    obtain ⟨hmoved, hview⟩ := Chain.transferFrom_moved htransfer
    have hpaid := h.of_moved hmoved (poolAt_congr hview) hsender
    rwa [receipt_of_ne hpair] at hpaid
  · cases hrun

theorem transfer (h : Holding d native tokens c) (hdst : dst ≠ d.router)
    (hrun : c.transfer token d.router dst v = .ok c') :
    Holding d native (Ledger.debit tokens token v) c' := by
  obtain ⟨hmoved, hview⟩ := Chain.transfer_moved hrun
  exact h.pays hmoved (poolAt_congr hview) hdst

theorem safeTransfer (h : Holding d native tokens c) (hdst : dst ≠ d.router)
    (hrun : Router.safeTransfer d token dst v c = .ok c') :
    Holding d native (Ledger.debit tokens token v) c' := by
  unfold Router.safeTransfer at hrun
  split at hrun
  · case _ c₁ htransfer =>
    obtain rfl := Except.ok.inj hrun
    exact h.transfer hdst htransfer
  · cases hrun

/-! ### Native payments and WECY -/

theorem pay {src : Address} (h : Holding d native tokens c) (hrun : c.pay src dst v = .ok c') :
    v ≤ native src ∧ Holding d (Ledger.move native src dst v) tokens c' := by
  unfold Chain.pay at hrun
  split_ifs at hrun with hle
  obtain rfl := Except.ok.inj hrun
  obtain ⟨hregistered, hapart, hfeeTo, rfl, htokens⟩ := h
  refine ⟨hle, hregistered, hapart, hfeeTo, rfl, ?_⟩
  rw [balanceOf_setNative]
  exact htokens

theorem setWECY {wecy wecy' : WECY} (h : Holding d native tokens c)
    (hw : c.contract d.weth = .wecy wecy) (hbalance : wecy'.balanceOf d.router = v) :
    Holding d native (Function.update tokens d.weth v) (c.setContract d.weth (.wecy wecy')) := by
  have hpools : (c.setContract d.weth (.wecy wecy')).poolAt = c.poolAt := by
    refine poolAt_congr ?_
    rw [Chain.pairView_setContract]
    refine Function.update_eq_self_iff.mpr ?_
    simp [Chain.pairView, hw, Contract.pairView]
  have hregistered : (c.setContract d.weth (.wecy wecy')).Registered :=
    registered_congr (c := c) rfl hpools h.registered
  refine ⟨hregistered, hpools ▸ h.apart, h.feeTo, h.native, ?_⟩
  intro t
  rw [Chain.balanceOf_setContract]
  by_cases ht : t = d.weth
  · rw [ht, Function.update_self, Function.update_self]
    exact hbalance
  · rw [Function.update_of_ne ht, Function.update_of_ne ht, h.tokens]

theorem deposit (h : Holding d native tokens c) (hrun : d.deposit d.router v c = .ok c') :
    v ≤ native d.router ∧ Holding d (Ledger.move native d.router d.weth v)
      (Ledger.credit tokens d.weth v) c' := by
  simp only [Deployment.deposit, except_bind_ok_iff] at hrun
  obtain ⟨c₁, hpaid, hrun⟩ := hrun
  obtain ⟨hle, hpays⟩ := h.pay hpaid
  refine ⟨hle, ?_⟩
  split at hrun
  · case _ wecy hw =>
    simp only [except_bind_ok_iff, WECY.deposit_ok_iff, except_pure_ok_iff] at hrun
    obtain ⟨_, ⟨-, rfl⟩, rfl⟩ := hrun
    have hbalance : wecy.balanceOf d.router = tokens d.weth := by
      rw [← hpays.tokens, Chain.balanceOf_wecy hw]
    apply hpays.setWECY hw
    rw [← hbalance]
    exact Ledger.credit_self
  · cases hrun

theorem withdraw (h : Holding d native tokens c) (hrun : d.withdraw d.router v c = .ok c') :
    Holding d (Ledger.move native d.weth d.router v) (Ledger.debit tokens d.weth v) c' := by
  unfold Deployment.withdraw at hrun
  split at hrun
  · case _ wecy hw =>
    simp only [except_bind_ok_iff, WECY.withdraw_ok_iff, Deployment.transferNative, if_true,
      assert_ok_iff, except_pure_ok_iff] at hrun
    obtain ⟨_, ⟨-, rfl⟩, c₁, hpaid, -, -, rfl⟩ := hrun
    have hbalance : wecy.balanceOf d.router = tokens d.weth := by
      rw [← h.tokens, Chain.balanceOf_wecy hw]
    have hset : Holding d native (Ledger.debit tokens d.weth v) (c.setContract d.weth
        (.wecy { wecy with balanceOf := Ledger.debit wecy.balanceOf d.router v })) := by
      apply h.setWECY hw
      rw [← hbalance]
      exact Ledger.debit_self
    exact (hset.pay hpaid).2
  · cases hrun

theorem transferNative (h : Holding d native tokens c) (hdst : dst ≠ d.router ∧ dst ≠ d.weth)
    (hrun : d.transferNative d.router dst v c = .ok c') :
    v ≤ native d.router ∧ Holding d (Ledger.move native d.router dst v) tokens c' := by
  rw [Deployment.transferNative, if_neg hdst.1, if_neg hdst.2] at hrun
  split_ifs at hrun
  exact h.pay hrun

/-- WECY for a pair is made of native currency of the router, and none is left. -/
theorem wrapInto (h : Holding d native tokens c) (hpair : pair ≠ d.router)
    (hrun : Router.wrapInto d pair v c = .ok c') :
    v ≤ native d.router ∧ Holding d (Ledger.move native d.router d.weth v) tokens c' := by
  simp only [Router.wrapInto, except_bind_ok_iff] at hrun
  obtain ⟨c₁, hdeposit, htransfer⟩ := hrun
  obtain ⟨hle, hdeposited⟩ := h.deposit hdeposit
  have hpaid := hdeposited.transfer hpair htransfer
  rw [Ledger.debit_credit] at hpaid
  exact ⟨hle, hpaid⟩

/-- The native currency that WECY pays to the router goes on to the recipient. -/
theorem unwrapTo (h : Holding d native tokens c) (hdst : dst ≠ d.router ∧ dst ≠ d.weth)
    (hrun : Router.unwrapTo d dst v c = .ok c') :
    ∃ native', native' d.router = native d.router ∧
      Holding d native' (Ledger.debit tokens d.weth v) c' := by
  simp only [Router.unwrapTo, except_bind_ok_iff] at hrun
  obtain ⟨c₁, hwithdraw, htransfer⟩ := hrun
  obtain ⟨-, hpaid⟩ := (h.withdraw hwithdraw).transferNative hdst htransfer
  refine ⟨_, ?_, hpaid⟩
  rw [Ledger.move_source hdst.1.symm, Ledger.move_target d.router_ne_weth.symm,
    Nat.add_sub_cancel]

/-- What the call came with and has not spent goes back to the caller. -/
theorem refund {spent : ℕ} (h : Holding d native tokens c)
    (hsender : sender ≠ d.router ∧ sender ≠ d.weth)
    (hrun : Router.refund d sender v spent c = .ok c') :
    Holding d (Ledger.move native d.router sender (v - spent)) tokens c' := by
  unfold Router.refund at hrun
  split_ifs at hrun with hlt
  · exact (h.transferNative hsender hrun).2
  · obtain rfl := Except.ok.inj hrun
    rwa [show v - spent = 0 by omega, Ledger.move_zero]

/-! ### Calls of a pair -/

theorem write {tokens' : Address → ℕ} (h : Holding d native tokens c)
    (hp : c.contract pool.pair = .pair pool rfl p)
    (h₀ : w.token0.balanceOf d.router = tokens' pool.token0)
    (h₁ : w.token1.balanceOf d.router = tokens' pool.token1)
    (hpair : w.pair.balanceOf d.router = tokens' pool.pair)
    (hother : ∀ t, t ≠ pool.token0 → t ≠ pool.token1 → tokens' t = tokens t) :
    Holding d native tokens' (c.write pool w) := by
  have hpools := poolAt_write (w := w) hp
  have hregistered : (c.write pool w).Registered := registered_congr (c := c) rfl hpools h.registered
  refine ⟨hregistered, hpools ▸ h.apart, h.feeTo, h.native, ?_⟩
  intro t
  rw [Chain.balanceOf_write]
  by_cases ht₁ : t = pool.token1
  · rw [ht₁, Function.update_self, h₁]
  rw [Function.update_of_ne ht₁]
  by_cases ht₀ : t = pool.token0
  · rw [ht₀, Function.update_self, h₀]
  rw [Function.update_of_ne ht₀]
  by_cases ht : t = pool.pair
  · rw [ht, Function.update_self, hpair]
  · rw [Function.update_of_ne ht, h.tokens, hother t ht₀ ht₁]

theorem token_balanceOf (h : Holding d native tokens c) (t : Address) :
    (c.token t).balanceOf d.router = tokens t := h.tokens t

theorem pair_balanceOf (h : Holding d native tokens c)
    (hp : c.contract pool.pair = .pair pool rfl p) : p.balanceOf d.router = tokens pool.pair := by
  rw [← h.tokens, Chain.balanceOf_pair hp]

theorem callPair {α : Type} {r : α} {f : Pool → World → Except Revert (α × World)}
    (h : Holding d native tokens c)
    (hkeeps : ∀ (pool : Pool) (w w' : World) (r : α), pool.pair ≠ d.router →
      w.factory.feeTo ≠ d.router → f pool w = .ok (r, w') →
      w'.token0.balanceOf d.router = w.token0.balanceOf d.router ∧
      w'.token1.balanceOf d.router = w.token1.balanceOf d.router ∧
      w'.pair.balanceOf d.router = w.pair.balanceOf d.router)
    (hrun : c.callPair pair f = .ok (r, c')) : Holding d native tokens c' := by
  obtain ⟨pool, p, w, -, hp, hcall, rfl⟩ := Chain.callPair_ok hrun
  obtain ⟨h₀, h₁, hpair⟩ := hkeeps pool _ w r (h.pool_ne hp) h.feeTo hcall
  refine h.write hp ?_ ?_ ?_ fun _ _ _ => rfl
  · exact h₀.trans (h.token_balanceOf _)
  · exact h₁.trans (h.token_balanceOf _)
  · exact hpair.trans (h.pair_balanceOf hp)

theorem mint {liquidity : ℕ} (h : Holding d native tokens c) (hdst : dst ≠ d.router)
    (hrun : (c.callPair pair fun pool => pool.mint block dst) = .ok (liquidity, c')) :
    Holding d native tokens c' := by
  refine h.callPair (fun pool w w' r _ hfeeTo hmint => ?_) hrun
  obtain ⟨h₀, h₁, hkept⟩ := pool.mint_moves hmint
  exact ⟨by rw [h₀], by rw [h₁], hkept d.router hdst.symm d.router_ne_zero hfeeTo.symm⟩

theorem liquidityTransfer {liquidity : ℕ} (h : Holding d native tokens c)
    (hsender : sender ≠ d.router) (hpair : pair ≠ d.router)
    (hrun : (c.callPair pair fun _ w => do
      let t ← w.pair.toERC20.transferFrom d.router sender pair liquidity
      return ((), w.withPair (w.pair.withToken t))) = .ok ((), c')) :
    Holding d native tokens c' := by
  refine h.callPair (fun pool w w' _ _ _ hmove => ?_) hrun
  simp only [except_bind_ok_iff, except_pure_ok_iff, Prod.mk.injEq, true_and] at hmove
  obtain ⟨t, hmoved, rfl⟩ := hmove
  have hbalance := (ERC20.transferFrom_moves hmoved).2
  refine ⟨rfl, rfl, ?_⟩
  change t.balanceOf d.router = w.pair.balanceOf d.router
  rw [hbalance, Ledger.move_of_ne hsender.symm hpair.symm]

theorem permit {liquidity deadline : ℕ} {permission : Router.Permission}
    (h : Holding d native tokens c)
    (hrun : Router.permit d block sender tokenA tokenB liquidity deadline permission c = .ok c') :
    Holding d native tokens c' := by
  simp only [Router.permit, except_bind_ok_iff, except_pure_ok_iff] at hrun
  obtain ⟨⟨_, _⟩, hcall, rfl⟩ := hrun
  refine h.callPair (fun pool w w' _ _ _ hpermit => ?_) hcall
  simp only [except_bind_ok_iff, except_pure_ok_iff, Prod.mk.injEq, true_and] at hpermit
  obtain ⟨storage, hstorage, rfl⟩ := hpermit
  exact ⟨rfl, rfl, congrFun (permit_balanceOf hstorage) d.router⟩

theorem burn {a₀ a₁ : ℕ} (h : Holding d native tokens c)
    (hrun : (c.callPair pair fun pool => pool.burn block dst) = .ok ((a₀, a₁), c')) :
    ∃ pool : Pool, pair = pool.pair ∧ c.poolAt pool.pair = some pool ∧
      Holding d native (receipt d dst pool.token1 a₁ (receipt d dst pool.token0 a₀ tokens)) c' := by
  obtain ⟨pool, p, w, hpair, hp, hburn, rfl⟩ := Chain.callPair_ok hrun
  obtain ⟨⟨-, h₀⟩, ⟨-, h₁⟩, hkept⟩ := pool.burn_moves hburn
  have hpool := h.pool_ne hp
  have hne := pool.token0_lt_token1.ne
  refine ⟨pool, hpair, Chain.poolAt_eq (Chain.pairView_pair hp), h.write hp ?_ ?_ ?_ ?_⟩
  · rw [h₀, receipt_other hne]
    exact move_receipt hpool (h.token_balanceOf _)
  · rw [h₁]
    apply move_receipt hpool
    rw [receipt_other hne.symm]
    exact h.token_balanceOf _
  · rw [receipt_other pool.pair_ne_token1, receipt_other pool.pair_ne_token0,
      hkept d.router hpool.symm h.feeTo.symm]
    exact h.pair_balanceOf hp
  · intro t ht₀ ht₁
    rw [receipt_other ht₁, receipt_other ht₀]

/-! ### Liquidity -/

theorem removeLiquidity {liquidity amountAMin amountBMin deadline amountA amountB : ℕ}
    (h : Holding d native tokens c) (hsender : sender ≠ d.router)
    (hrun : Router.removeLiquidity d block sender tokenA tokenB liquidity amountAMin amountBMin dst
      deadline c = .ok ((amountA, amountB), c')) :
    tokenA ≠ tokenB ∧
      Holding d native (receipt d dst tokenB amountB (receipt d dst tokenA amountA tokens)) c' := by
  simp only [Router.removeLiquidity, except_bind_ok_iff, except_pure_ok_iff, Prod.mk.injEq] at hrun
  obtain ⟨-, -, ⟨_, c₁⟩, htransfer, ⟨⟨a₀, a₁⟩, c₂⟩, hburn, ⟨token0, token1⟩, hsort, -, -, -, -,
    ⟨hA, hB⟩, rfl⟩ := hrun
  have hpair := h.pairFor_ne tokenA tokenB
  have htransferred := h.liquidityTransfer hsender hpair htransfer
  obtain ⟨pool, hsame, hpool, hburnt⟩ := htransferred.burn hburn
  have hfor : pairFor c₁ tokenA tokenB = pool.pair := by
    rw [← hsame, pairFor, pairFor, callPair_factory htransfer]
  have htrades := htransferred.registered.trades hfor hpool
  have hne := htrades.ne
  refine ⟨hne, ?_⟩
  obtain ⟨-, ⟨hfirst, rfl, rfl⟩ | ⟨hfirst, rfl, rfl⟩⟩ := Chain.sortTokens_trades htrades hsort
  · simp only [inOrder, if_pos hfirst] at hA hB
    rw [← hA, ← hB]
    exact hburnt
  · simp only [inOrder, if_neg hfirst] at hA hB
    rw [← hA, ← hB, receipt_comm hne.symm]
    exact hburnt

section Deployment

variable {amountAMin amountBMin : ℕ}

theorem createPair {pair : Address} (h : Holding d native (fun _ => 0) c)
    (hrun : d.createPair tokenA tokenB c = .ok (pair, c')) : Holding d native (fun _ => 0) c' := by
  obtain ⟨pool, -, -, hsalt, hnone, -, rfl⟩ := Chain.createPair_ok hrun
  have hne : d.router ≠ pool.pair := hsalt ▸ (d.create2_ne_router _).symm
  have hview := @Chain.pairView_setPair c pool (.deployed d.keccak256 d.chainid pool.pair)
  constructor
  · refine (h.registered.setPair hnone).register ?_
    rw [Chain.poolAt, hview, Function.update_self]
    rfl
  · have hapart := h.apart
    rw [Chain.poolAt] at hapart ⊢
    exact (congrArg _ ((congrFun hview d.router).trans (Function.update_of_ne hne _ _))).trans hapart
  · exact h.feeTo
  · exact h.native
  · intro t
    have hbalance := congrFun (@Chain.balanceOf_setContract c pool.pair
      (.pair pool rfl (.deployed d.keccak256 d.chainid pool.pair))) t
    by_cases ht : t = pool.pair
    · rw [ht, Function.update_self] at hbalance
      rw [ht]
      exact congrFun hbalance d.router
    · rw [Function.update_of_ne ht] at hbalance
      exact (congrFun hbalance d.router).trans (h.tokens t)

theorem ensurePair (h : Holding d native (fun _ => 0) c)
    (hrun : Router.ensurePair d tokenA tokenB c = .ok c') : Holding d native (fun _ => 0) c' := by
  unfold Router.ensurePair at hrun
  split_ifs at hrun
  · simp only [except_bind_ok_iff, except_pure_ok_iff] at hrun
    obtain ⟨⟨pair, _⟩, hcreate, rfl⟩ := hrun
    exact h.createPair hcreate
  · exact Except.ok.inj hrun ▸ h

theorem liquidityAmounts {amountADesired amountBDesired : ℕ} {amounts : ℕ × ℕ}
    (h : Holding d native (fun _ => 0) c)
    (hrun : Router.liquidityAmounts d tokenA tokenB amountADesired amountBDesired amountAMin
      amountBMin c = .ok (amounts, c')) : Holding d native (fun _ => 0) c' := by
  simp only [Router.liquidityAmounts, except_bind_ok_iff] at hrun
  obtain ⟨c₁, hensure, _, -, hrun⟩ := hrun
  have hready := h.ensurePair hensure
  split_ifs at hrun
  · simp only [except_bind_ok_iff, except_pure_ok_iff, Prod.mk.injEq] at hrun
    obtain ⟨-, -, -, rfl⟩ := hrun
    exact hready
  · simp only [except_bind_ok_iff, except_pure_ok_iff, Prod.mk.injEq] at hrun
    obtain ⟨-, -, -, rfl⟩ := hrun
    exact hready

end Deployment

end Holding

/-! ### Swaps -/

namespace Holding

variable {input output token0 : Address} {rest path : List Address} {amounts : List ℕ}

theorem swapPair {token1 : Address} (h : Holding d native tokens c)
    (hsort : sortTokens input output = .ok (token0, token1))
    (hrun : Router.swapPair block (pairFor c input output) input token0 v dst c = .ok c') :
    Holding d native (receipt d dst output v tokens) c' := by
  obtain ⟨view, -, hswapped⟩ := Chain.swapPair_swapped h.registered hsort hrun
  exact h.of_moved hswapped.moved hswapped.poolAt (h.pairFor_ne input output)

theorem nextHolder_ne (h : Holding d native tokens c) (next : Address) :
    Router.nextHolder c output (next :: rest) dst ≠ d.router := h.pairFor_ne output next

/-- Along a path only the last output may come to the router. -/
theorem swap (h : Holding d native tokens c) (hpath : 2 ≤ path.length)
    (hlength : amounts.length + 1 = path.length)
    (hrun : Router.swap block dst amounts path c = .ok c') :
    ∃ token v, path.getLast? = some token ∧ amounts.getLast? = some v ∧
      Holding d native (receipt d dst token v tokens) c' := by
  induction path generalizing amounts c with
  | nil => simp at hpath
  | cons input rest ih =>
    match rest, amounts, hlength with
    | [], _, _ => simp at hpath
    | output :: rest, [], hlength => simp at hlength
    | output :: rest, amount :: amounts, hlength =>
      simp only [Router.swap, except_bind_ok_iff, index_ok_iff, List.getElem?_cons_zero,
        Option.some.injEq, List.tail_cons] at hrun
      obtain ⟨⟨token0, token1⟩, hsort, _, rfl, c₁, hfirst, hrun⟩ := hrun
      have hswapped := h.swapPair hsort hfirst
      cases rest with
      | nil =>
        obtain rfl := Except.ok.inj hrun
        have hnil : amounts = [] := List.length_eq_zero_iff.mp (by simpa using hlength)
        exact ⟨output, amount, rfl, by rw [hnil, List.getLast?_singleton], hswapped⟩
      | cons next rest =>
        rw [receipt_of_ne (h.nextHolder_ne next)] at hswapped
        have hlength' : amounts.length + 1 = (output :: next :: rest).length := by
          simpa using hlength
        obtain ⟨token, v, htoken, hv, hdone⟩ := ih hswapped (by simp) hlength' hrun
        have hpos : amounts ≠ [] := by
          intro hnil
          simp [hnil] at hlength'
        refine ⟨token, v, ?_, ?_, hdone⟩
        · rw [List.getLast?_cons_cons, htoken]
        · rw [List.getLast?_cons_of_ne_nil hpos, hv]

theorem swapSupportingFeeOnTransferTokens (h : Holding d native tokens c)
    (hpath : 2 ≤ path.length)
    (hrun : Router.swapSupportingFeeOnTransferTokens block dst path c = .ok c') :
    ∃ token v, path.getLast? = some token ∧
      Holding d native (receipt d dst token v tokens) c' := by
  induction path generalizing c with
  | nil => simp at hpath
  | cons input rest ih =>
    match rest with
    | [] => simp at hpath
    | output :: rest =>
      simp only [Router.swapSupportingFeeOnTransferTokens, Router.swapSurplus,
        except_bind_ok_iff] at hrun
      obtain ⟨c₁, ⟨⟨token0, token1⟩, hsort, _, -, _, -, amount, -, hfirst⟩, hrun⟩ := hrun
      have hswapped := h.swapPair hsort hfirst
      cases rest with
      | nil =>
        obtain rfl := Except.ok.inj hrun
        exact ⟨output, amount, rfl, hswapped⟩
      | cons next rest =>
        rw [receipt_of_ne (h.nextHolder_ne next)] at hswapped
        obtain ⟨token, v, htoken, hdone⟩ := ih hswapped (by simp) hrun
        exact ⟨token, v, by rw [List.getLast?_cons_cons, htoken], hdone⟩

theorem firstPair_ne (h : Holding d native tokens c) (hpair : Router.firstPair c path = .ok pair) :
    pair ≠ d.router ∧ 2 ≤ path.length := by
  simp only [Router.firstPair, except_bind_ok_iff, index_ok_iff, except_pure_ok_iff] at hpair
  obtain ⟨input, -, output, hsecond, rfl⟩ := hpair
  exact ⟨h.pairFor_ne input output, (List.getElem?_eq_some_iff.mp hsecond).1⟩

theorem payFirst (h : Holding d native tokens c) (hsender : sender ≠ d.router)
    (hrun : Router.payFirst d sender path v c = .ok c') :
    Holding d native tokens c' ∧ 2 ≤ path.length := by
  simp only [Router.payFirst, except_bind_ok_iff] at hrun
  obtain ⟨_, -, pair, hpair, hpaid⟩ := hrun
  obtain ⟨hne, hlength⟩ := h.firstPair_ne hpair
  exact ⟨h.safeTransferFrom hsender hne hpaid, hlength⟩

end Holding
end EnergyChain.Dex
