import EnergyChain.Dex.RouterFunds

/-!
# The router keeps nothing

Every entry point of the router ends with none of the tokens, liquidity and native
currency that went through it. What came with a payable call was wrapped for the
first pair or goes back to the caller.
-/

namespace EnergyChain.Dex

open Library

variable {d : Deployment} {block : Block} {c c' : Chain} {native : Address → ℕ}
  {sender dst : Address} {deadline : ℕ}

/-- The router has nothing but native currency, which is as much as before. -/
def Emptied (d : Deployment) (native : Address → ℕ) (c : Chain) : Prop :=
  ∃ native', native' d.router = native d.router ∧ Holding d native' (fun _ => 0) c

theorem Holding.emptied (h : Holding d native (fun _ => 0) c) : Emptied d native c :=
  ⟨native, rfl, h⟩

/-- Of the value that came with a call a part was wrapped, and the rest went back. -/
structure Refunded (d : Deployment) (sender : Address) (native : Address → ℕ)
    (value wrapped : ℕ) (c : Chain) : Prop where
  le : wrapped ≤ value
  holding : Holding d (Ledger.move (Ledger.move native d.router d.weth wrapped) d.router sender
    (value - wrapped)) (fun _ => 0) c

section Entry

variable {token tokenA tokenB : Address} {path : List Address} {amounts : List ℕ}
  {amountAMin amountBMin liquidity value : ℕ}
  (h : Holding d native (fun _ => 0) c) (hsender : sender ≠ d.router ∧ sender ≠ d.weth)
  (hdst : dst ≠ d.router ∧ dst ≠ d.weth)

include h hsender hdst

/-! ### Liquidity -/

theorem addLiquidity_emptied {amountADesired amountBDesired : ℕ} {result : ℕ × ℕ × ℕ}
    (hrun : Router.addLiquidity d block sender tokenA tokenB amountADesired amountBDesired
      amountAMin amountBMin dst deadline c = .ok (result, c')) : Emptied d native c' := by
  simp only [Router.addLiquidity, except_bind_ok_iff, except_pure_ok_iff, Prod.mk.injEq] at hrun
  obtain ⟨-, -, ⟨⟨amountA, amountB⟩, c₁⟩, hamounts, c₂, hpaidA, c₃, hpaidB, ⟨l, c₄⟩, hmint, -,
    rfl⟩ := hrun
  have hready := h.liquidityAmounts hamounts
  have hpair := hready.pairFor_ne tokenA tokenB
  have hpaid := (hready.safeTransferFrom hsender.1 hpair hpaidA).safeTransferFrom hsender.1 hpair
    hpaidB
  exact (hpaid.mint hdst.1 hmint).emptied

theorem addLiquidityETH_refunded {amountTokenDesired amountToken amountETH l : ℕ}
    (hvalue : native d.router = value)
    (hrun : Router.addLiquidityETH d block sender value token amountTokenDesired amountAMin
      amountBMin dst deadline c = .ok ((amountToken, amountETH, l), c')) :
    Refunded d sender native value amountETH c' := by
  simp only [Router.addLiquidityETH, except_bind_ok_iff, except_pure_ok_iff, Prod.mk.injEq] at hrun
  obtain ⟨-, -, ⟨⟨_, _⟩, c₁⟩, hamounts, c₂, hpaid, c₃, hwrap, ⟨_, c₄⟩, hmint, c₅, hrefund,
    ⟨rfl, rfl, rfl⟩, rfl⟩ := hrun
  have hready := h.liquidityAmounts hamounts
  have hpair := hready.pairFor_ne token d.weth
  have hpays := hready.safeTransferFrom hsender.1 hpair hpaid
  obtain ⟨hle, hwrapped⟩ := hpays.wrapInto hpair hwrap
  have hminted := hwrapped.mint hdst.1 hmint
  exact ⟨hvalue ▸ hle, hminted.refund hsender hrefund⟩

theorem removeLiquidity_emptied {result : ℕ × ℕ}
    (hrun : Router.removeLiquidity d block sender tokenA tokenB liquidity amountAMin amountBMin dst
      deadline c = .ok (result, c')) : Emptied d native c' := by
  obtain ⟨-, hremoved⟩ := h.removeLiquidity hsender.1 hrun
  rw [receipt_of_ne hdst.1, receipt_of_ne hdst.1] at hremoved
  exact hremoved.emptied

theorem removeLiquidityETH_emptied {result : ℕ × ℕ}
    (hrun : Router.removeLiquidityETH d block sender token liquidity amountAMin amountBMin dst
      deadline c = .ok (result, c')) : Emptied d native c' := by
  simp only [Router.removeLiquidityETH, except_bind_ok_iff, except_pure_ok_iff, Prod.mk.injEq]
    at hrun
  obtain ⟨-, -, ⟨⟨a, b⟩, c₁⟩, hremove, c₂, htransfer, c₃, hunwrap, -, rfl⟩ := hrun
  obtain ⟨hne, hremoved⟩ := h.removeLiquidity hsender.1 hremove
  rw [receipt_router, receipt_router, Ledger.credit_comm hne] at hremoved
  have hpaid := hremoved.safeTransfer hdst.1 htransfer
  rw [Ledger.debit_credit] at hpaid
  obtain ⟨native', hsame, hdone⟩ := hpaid.unwrapTo hdst hunwrap
  rw [Ledger.debit_credit] at hdone
  exact ⟨native', hsame, hdone⟩

/-- Here the router sends on all that it has of the token, which is the amount of
the burn. -/
theorem removeLiquidityETHSupportingFeeOnTransferTokens_emptied {amountETH : ℕ}
    (hrun : Router.removeLiquidityETHSupportingFeeOnTransferTokens d block sender token liquidity
      amountAMin amountBMin dst deadline c = .ok (amountETH, c')) : Emptied d native c' := by
  simp only [Router.removeLiquidityETHSupportingFeeOnTransferTokens, except_bind_ok_iff,
    except_pure_ok_iff, Prod.mk.injEq] at hrun
  obtain ⟨-, -, ⟨⟨a, b⟩, c₁⟩, hremove, c₂, htransfer, c₃, hunwrap, -, rfl⟩ := hrun
  obtain ⟨hne, hremoved⟩ := h.removeLiquidity hsender.1 hremove
  rw [receipt_router, receipt_router, Ledger.credit_comm hne] at hremoved
  have hall : c₁.balanceOf token d.router = a := by
    rw [hremoved.tokens, Ledger.credit_self, Ledger.credit_of_ne hne, Nat.zero_add]
  have hpaid := hremoved.safeTransfer hdst.1 htransfer
  rw [hall, Ledger.debit_credit] at hpaid
  obtain ⟨native', hsame, hdone⟩ := hpaid.unwrapTo hdst hunwrap
  rw [Ledger.debit_credit] at hdone
  exact ⟨native', hsame, hdone⟩

/-! ### Swaps of tokens -/

omit hsender in
theorem swap_emptied (hpath : 2 ≤ path.length) (hlength : amounts.length = path.length)
    (hrun : Router.swap block dst amounts.tail path c = .ok c') :
    Holding d native (fun _ => 0) c' := by
  have htail : amounts.tail.length + 1 = path.length := by
    rw [List.length_tail]
    omega
  obtain ⟨_, _, -, -, hdone⟩ := h.swap hpath htail hrun
  rwa [receipt_of_ne hdst.1] at hdone

omit hsender in
theorem swap_unwrapTo_emptied {c₁ : Chain} {output : Address} {amountOut : ℕ}
    (hpath : 2 ≤ path.length) (hlength : amounts.length = path.length)
    (hrun : Router.swap block d.router amounts.tail path c = .ok c₁)
    (hlast : path.getLast? = some output) (houtput : output = d.weth)
    (hamount : amounts.getLast? = some amountOut)
    (hunwrap : Router.unwrapTo d dst amountOut c₁ = .ok c') : Emptied d native c' := by
  have htail : amounts.tail.length + 1 = path.length := by
    rw [List.length_tail]
    omega
  obtain ⟨token, v, htoken, hv, hdone⟩ := h.swap hpath htail hrun
  have hsame : v = amountOut := by
    match amounts, htail with
    | [], _ => cases hv
    | [_], _ => cases hv
    | _ :: _ :: _, _ => exact Option.some.inj (hv.symm.trans hamount)
  obtain rfl : d.weth = token := houtput.symm.trans (Option.some.inj (hlast.symm.trans htoken))
  rw [receipt_router, hsame] at hdone
  obtain ⟨native', hnative, hunwrapped⟩ := hdone.unwrapTo hdst hunwrap
  rw [Ledger.debit_credit] at hunwrapped
  exact ⟨native', hnative, hunwrapped⟩

theorem swapExactTokensForTokens_emptied {amountIn amountOutMin : ℕ}
    (hrun : Router.swapExactTokensForTokens d block sender amountIn amountOutMin path dst deadline
      c = .ok (amounts, c')) : Emptied d native c' := by
  simp only [Router.swapExactTokensForTokens, except_bind_ok_iff, except_pure_ok_iff,
    Prod.mk.injEq] at hrun
  obtain ⟨-, -, _, hamounts, -, -, -, -, _, -, c₁, hpay, c₂, hswap, rfl, rfl⟩ := hrun
  obtain ⟨hpath, hlength⟩ := getAmountsOut_length hamounts
  obtain ⟨hpaid, -⟩ := h.payFirst hsender.1 hpay
  exact (swap_emptied hpaid hdst hpath hlength hswap).emptied

theorem swapTokensForExactTokens_emptied {amountOut amountInMax : ℕ}
    (hrun : Router.swapTokensForExactTokens d block sender amountOut amountInMax path dst deadline
      c = .ok (amounts, c')) : Emptied d native c' := by
  simp only [Router.swapTokensForExactTokens, except_bind_ok_iff, except_pure_ok_iff,
    Prod.mk.injEq] at hrun
  obtain ⟨-, -, _, hamounts, _, -, -, -, c₁, hpay, c₂, hswap, rfl, rfl⟩ := hrun
  obtain ⟨hpath, hlength⟩ := getAmountsIn_length hamounts
  obtain ⟨hpaid, -⟩ := h.payFirst hsender.1 hpay
  exact (swap_emptied hpaid hdst hpath hlength hswap).emptied

theorem swapTokensForExactETH_emptied {amountOut amountInMax : ℕ}
    (hrun : Router.swapTokensForExactETH d block sender amountOut amountInMax path dst deadline c =
      .ok (amounts, c')) : Emptied d native c' := by
  simp only [Router.swapTokensForExactETH, except_bind_ok_iff, except_pure_ok_iff, require_ok_iff,
    Router.last_ok_iff, Prod.mk.injEq] at hrun
  obtain ⟨-, -, output, hlast, -, houtput, _, hamounts, _, -, -, -, c₁, hpay, c₂, hswap, _, hamount,
    c₃, hunwrap, rfl, rfl⟩ := hrun
  obtain ⟨hpath, hlength⟩ := getAmountsIn_length hamounts
  obtain ⟨hpaid, -⟩ := h.payFirst hsender.1 hpay
  exact swap_unwrapTo_emptied hpaid hdst hpath hlength hswap hlast houtput hamount hunwrap

theorem swapExactTokensForETH_emptied {amountIn amountOutMin : ℕ}
    (hrun : Router.swapExactTokensForETH d block sender amountIn amountOutMin path dst deadline c =
      .ok (amounts, c')) : Emptied d native c' := by
  simp only [Router.swapExactTokensForETH, except_bind_ok_iff, except_pure_ok_iff, require_ok_iff,
    Router.last_ok_iff, Prod.mk.injEq] at hrun
  obtain ⟨-, -, output, hlast, -, houtput, _, hamounts, _, hamount, -, -, _, -, c₁, hpay, c₂, hswap,
    c₃, hunwrap, rfl, rfl⟩ := hrun
  obtain ⟨hpath, hlength⟩ := getAmountsOut_length hamounts
  obtain ⟨hpaid, -⟩ := h.payFirst hsender.1 hpay
  exact swap_unwrapTo_emptied hpaid hdst hpath hlength hswap hlast houtput hamount hunwrap

theorem swapExactTokensForTokensSupportingFeeOnTransferTokens_emptied {amountIn amountOutMin : ℕ}
    (hrun : Router.swapExactTokensForTokensSupportingFeeOnTransferTokens d block sender amountIn
      amountOutMin path dst deadline c = .ok c') : Emptied d native c' := by
  simp only [Router.swapExactTokensForTokensSupportingFeeOnTransferTokens, except_bind_ok_iff,
    except_pure_ok_iff] at hrun
  obtain ⟨-, -, c₁, hpay, -, -, c₂, hswap, -, -, -, -, rfl⟩ := hrun
  obtain ⟨hpaid, hpath⟩ := h.payFirst hsender.1 hpay
  obtain ⟨_, _, -, hdone⟩ := hpaid.swapSupportingFeeOnTransferTokens hpath hswap
  rw [receipt_of_ne hdst.1] at hdone
  exact hdone.emptied

/-- Here the router unwraps all the WECY that it has. -/
theorem swapExactTokensForETHSupportingFeeOnTransferTokens_emptied {amountIn amountOutMin : ℕ}
    (hrun : Router.swapExactTokensForETHSupportingFeeOnTransferTokens d block sender amountIn
      amountOutMin path dst deadline c = .ok c') : Emptied d native c' := by
  simp only [Router.swapExactTokensForETHSupportingFeeOnTransferTokens, except_bind_ok_iff,
    require_ok_iff, Router.last_ok_iff] at hrun
  obtain ⟨-, -, output, hlast, -, houtput, c₁, hpay, c₂, hswap, -, -, hunwrap⟩ := hrun
  obtain ⟨hpaid, hpath⟩ := h.payFirst hsender.1 hpay
  obtain ⟨token, v, htoken, hdone⟩ := hpaid.swapSupportingFeeOnTransferTokens hpath hswap
  obtain rfl : d.weth = token := houtput.symm.trans (Option.some.inj (hlast.symm.trans htoken))
  rw [receipt_router] at hdone
  have hall : c₂.balanceOf d.weth d.router = v := by
    rw [hdone.tokens, Ledger.credit_self, Nat.zero_add]
  rw [hall] at hunwrap
  obtain ⟨native', hnative, hunwrapped⟩ := hdone.unwrapTo hdst hunwrap
  rw [Ledger.debit_credit] at hunwrapped
  exact ⟨native', hnative, hunwrapped⟩

/-! ### Swaps of native currency -/

omit hsender in
theorem swapExactETHForTokens_refunded {amountOutMin wrapped : ℕ}
    (hrun : Router.swapExactETHForTokens d block value amountOutMin path dst deadline c =
      .ok (amounts, c')) (hwrapped : amounts[0]? = some wrapped) :
    Refunded d sender native value wrapped c' := by
  simp only [Router.swapExactETHForTokens, except_bind_ok_iff, except_pure_ok_iff, index_ok_iff,
    Prod.mk.injEq] at hrun
  obtain ⟨-, -, -, -, -, -, _, hamounts, -, -, -, -, paid, hpaid, pair, hfirst, c₁, hwrap, c₂,
    hswap, rfl, rfl⟩ := hrun
  obtain ⟨hpath, hlength⟩ := getAmountsOut_length hamounts
  obtain ⟨hpair, -⟩ := h.firstPair_ne hfirst
  obtain rfl := Option.some.inj (hwrapped.symm.trans hpaid)
  have hall : wrapped = value := by
    simp only [getAmountsOut, except_bind_ok_iff] at hamounts
    obtain ⟨-, -, hamounts⟩ := hamounts
    obtain ⟨rest, rfl⟩ := Chain.amountsOutFrom_head hamounts
    exact (Option.some.inj hwrapped).symm
  obtain ⟨-, hloaded⟩ := h.wrapInto hpair hwrap
  have hdone := swap_emptied hloaded hdst hpath hlength hswap
  refine ⟨hall.le, ?_⟩
  rwa [hall, Nat.sub_self, Ledger.move_zero, ← hall]

theorem swapETHForExactTokens_refunded {amountOut wrapped : ℕ}
    (hrun : Router.swapETHForExactTokens d block sender value amountOut path dst deadline c =
      .ok (amounts, c')) (hwrapped : amounts[0]? = some wrapped) :
    Refunded d sender native value wrapped c' := by
  simp only [Router.swapETHForExactTokens, except_bind_ok_iff, except_pure_ok_iff, index_ok_iff,
    require_ok_iff, Prod.mk.injEq] at hrun
  obtain ⟨-, -, -, -, -, -, _, hamounts, paid, hpaid, -, hle, pair, hfirst, c₁, hwrap, c₂, hswap,
    c₃, hrefund, rfl, rfl⟩ := hrun
  obtain ⟨hpath, hlength⟩ := getAmountsIn_length hamounts
  obtain ⟨hpair, -⟩ := h.firstPair_ne hfirst
  obtain rfl := Option.some.inj (hwrapped.symm.trans hpaid)
  obtain ⟨-, hloaded⟩ := h.wrapInto hpair hwrap
  have hdone := swap_emptied hloaded hdst hpath hlength hswap
  exact ⟨hle, hdone.refund hsender hrefund⟩

omit hsender in
theorem swapExactETHForTokensSupportingFeeOnTransferTokens_refunded {amountOutMin : ℕ}
    (hrun : Router.swapExactETHForTokensSupportingFeeOnTransferTokens d block value amountOutMin
      path dst deadline c = .ok c') : Refunded d sender native value value c' := by
  simp only [Router.swapExactETHForTokensSupportingFeeOnTransferTokens, except_bind_ok_iff,
    except_pure_ok_iff] at hrun
  obtain ⟨-, -, -, -, -, -, pair, hfirst, c₁, hwrap, -, -, c₂, hswap, -, -, -, -, rfl⟩ := hrun
  obtain ⟨hpair, hpath⟩ := h.firstPair_ne hfirst
  obtain ⟨-, hloaded⟩ := h.wrapInto hpair hwrap
  obtain ⟨_, _, -, hdone⟩ := hloaded.swapSupportingFeeOnTransferTokens hpath hswap
  rw [receipt_of_ne hdst.1] at hdone
  refine ⟨le_rfl, ?_⟩
  rwa [Nat.sub_self, Ledger.move_zero]

end Entry

/-! ### All entry points -/

/-- The router has no native currency and none of any token. -/
def Router.Empty (d : Deployment) (c : Chain) : Prop :=
  c.native d.router = 0 ∧ ∀ token, c.balanceOf token d.router = 0

theorem Emptied.empty (h : Emptied d native c) (hnative : native d.router = 0) :
    Router.Empty d c := by
  obtain ⟨native', hsame, hdone⟩ := h
  exact ⟨by rw [hdone.native, hsame, hnative], hdone.tokens⟩

theorem executeNonpayable_emptied {call : Router.NonpayableCall}
    (h : Holding d native (fun _ => 0) c) (hsender : sender ≠ d.router ∧ sender ≠ d.weth)
    (hdst : dst ≠ d.router ∧ dst ≠ d.weth)
    (hrun : Router.executeNonpayable d block sender dst deadline c call = .ok c') :
    Emptied d native c' := by
  cases call <;> simp only [Router.executeNonpayable, except_map_ok_iff] at hrun
  case addLiquidity =>
    obtain ⟨⟨_, _⟩, hrun, rfl⟩ := hrun
    exact addLiquidity_emptied h hsender hdst hrun
  case removeLiquidity =>
    obtain ⟨⟨_, _⟩, hrun, rfl⟩ := hrun
    exact removeLiquidity_emptied h hsender hdst hrun
  case removeLiquidityETH =>
    obtain ⟨⟨_, _⟩, hrun, rfl⟩ := hrun
    exact removeLiquidityETH_emptied h hsender hdst hrun
  case removeLiquidityETHSupportingFeeOnTransferTokens =>
    obtain ⟨⟨_, _⟩, hrun, rfl⟩ := hrun
    exact removeLiquidityETHSupportingFeeOnTransferTokens_emptied h hsender hdst hrun
  case removeLiquidityWithPermit =>
    simp only [Router.removeLiquidityWithPermit, except_bind_ok_iff] at hrun
    obtain ⟨⟨_, _⟩, ⟨_, hpermit, hrun⟩, rfl⟩ := hrun
    exact removeLiquidity_emptied (h.permit hpermit) hsender hdst hrun
  case removeLiquidityETHWithPermit =>
    simp only [Router.removeLiquidityETHWithPermit, except_bind_ok_iff] at hrun
    obtain ⟨⟨_, _⟩, ⟨_, hpermit, hrun⟩, rfl⟩ := hrun
    exact removeLiquidityETH_emptied (h.permit hpermit) hsender hdst hrun
  case removeLiquidityETHWithPermitSupportingFeeOnTransferTokens =>
    simp only [Router.removeLiquidityETHWithPermitSupportingFeeOnTransferTokens,
      except_bind_ok_iff] at hrun
    obtain ⟨⟨_, _⟩, ⟨_, hpermit, hrun⟩, rfl⟩ := hrun
    exact removeLiquidityETHSupportingFeeOnTransferTokens_emptied (h.permit hpermit) hsender hdst
      hrun
  case swapExactTokensForTokens =>
    obtain ⟨⟨_, _⟩, hrun, rfl⟩ := hrun
    exact swapExactTokensForTokens_emptied h hsender hdst hrun
  case swapTokensForExactTokens =>
    obtain ⟨⟨_, _⟩, hrun, rfl⟩ := hrun
    exact swapTokensForExactTokens_emptied h hsender hdst hrun
  case swapTokensForExactETH =>
    obtain ⟨⟨_, _⟩, hrun, rfl⟩ := hrun
    exact swapTokensForExactETH_emptied h hsender hdst hrun
  case swapExactTokensForETH =>
    obtain ⟨⟨_, _⟩, hrun, rfl⟩ := hrun
    exact swapExactTokensForETH_emptied h hsender hdst hrun
  case swapExactTokensForTokensSupportingFeeOnTransferTokens =>
    exact swapExactTokensForTokensSupportingFeeOnTransferTokens_emptied h hsender hdst hrun
  case swapExactTokensForETHSupportingFeeOnTransferTokens =>
    exact swapExactTokensForETHSupportingFeeOnTransferTokens_emptied h hsender hdst hrun

theorem executePayable_refunded {value wrapped : ℕ} {call : Router.PayableCall}
    (h : Holding d native (fun _ => 0) c) (hnative : native d.router = 0)
    (hsender : sender ≠ d.router ∧ sender ≠ d.weth) (hdst : dst ≠ d.router ∧ dst ≠ d.weth)
    (hrun : Router.executePayable d block sender dst deadline value c call = .ok (wrapped, c')) :
    value ≤ native sender ∧
      Refunded d sender (Ledger.move native sender d.router value) value wrapped c' := by
  have hvalue : Ledger.move native sender d.router value d.router = value := by
    rw [Ledger.move_target hsender.1, hnative, Nat.zero_add]
  cases call <;> simp only [Router.executePayable, except_bind_ok_iff, except_pure_ok_iff,
    index_ok_iff, Prod.mk.injEq] at hrun
  case addLiquidityETH =>
    obtain ⟨c₁, hpay, ⟨⟨_, _, _⟩, _⟩, hrun, rfl, rfl⟩ := hrun
    obtain ⟨hle, hpaid⟩ := h.pay hpay
    exact ⟨hle, addLiquidityETH_refunded hpaid hsender hdst hvalue hrun⟩
  case swapExactETHForTokens =>
    obtain ⟨c₁, hpay, ⟨_, _⟩, hrun, _, hwrapped, rfl, rfl⟩ := hrun
    obtain ⟨hle, hpaid⟩ := h.pay hpay
    exact ⟨hle, swapExactETHForTokens_refunded hpaid hdst hrun hwrapped⟩
  case swapETHForExactTokens =>
    obtain ⟨c₁, hpay, ⟨_, _⟩, hrun, _, hwrapped, rfl, rfl⟩ := hrun
    obtain ⟨hle, hpaid⟩ := h.pay hpay
    exact ⟨hle, swapETHForExactTokens_refunded hpaid hsender hdst hrun hwrapped⟩
  case swapExactETHForTokensSupportingFeeOnTransferTokens =>
    obtain ⟨c₁, hpay, _, hrun, rfl, rfl⟩ := hrun
    obtain ⟨hle, hpaid⟩ := h.pay hpay
    exact ⟨hle, swapExactETHForTokensSupportingFeeOnTransferTokens_refunded hpaid hdst hrun⟩

/-- Between calls the router has nothing, when it takes no protocol fee: any call
for another recipient leaves it empty, and a payable call costs the caller what
was wrapped of its value. -/
theorem router_keeps_nothing (hregistered : c.Registered) (hrouter : c.poolAt d.router = none)
    (hfeeTo : c.factory.feeTo ≠ d.router) (hempty : Router.Empty d c)
    (hsender : sender ≠ d.router ∧ sender ≠ d.weth) (hdst : dst ≠ d.router ∧ dst ≠ d.weth) :
    (∀ call c', Router.executeNonpayable d block sender dst deadline c call = .ok c' →
      Router.Empty d c') ∧
    ∀ value call wrapped c',
      Router.executePayable d block sender dst deadline value c call = .ok (wrapped, c') →
        Router.Empty d c' ∧ wrapped ≤ value ∧ c'.native sender + wrapped = c.native sender ∧
        c'.native d.weth = c.native d.weth + wrapped := by
  have h : Holding d c.native (fun _ => 0) c := ⟨hregistered, hrouter, hfeeTo, rfl, hempty.2⟩
  have hweth := d.router_ne_weth
  constructor
  · intro call c' hrun
    exact (executeNonpayable_emptied h hsender hdst hrun).empty hempty.1
  · intro value call wrapped c' hrun
    obtain ⟨hfunds, hle, hdone⟩ := executePayable_refunded h hempty.1 hsender hdst hrun
    refine ⟨⟨?_, hdone.tokens⟩, hle, ?_, ?_⟩
    · rw [hdone.native, Ledger.move_source hsender.1.symm, Ledger.move_source hweth,
        Ledger.move_target hsender.1, hempty.1]
      omega
    · rw [hdone.native, Ledger.move_target hsender.1.symm, Ledger.move_of_ne hsender.1 hsender.2,
        Ledger.move_source hsender.1]
      omega
    · rw [hdone.native, Ledger.move_of_ne hweth.symm hsender.2.symm, Ledger.move_target hweth,
        Ledger.move_of_ne hsender.2.symm hweth.symm]

/-! ### Sample calls -/

/-- A pair of the token at two and WECY. -/
def sampleWecyPool : Pool := samplePoolOf ⟨24⟩ ⟨2⟩ ⟨101⟩ (by decide)

def sampleWecyTokens : Chain :=
  { Chain.initial ⟨9⟩ with
    native := Ledger.credit (Ledger.credit (fun _ => 0) ⟨5⟩ 1000) ⟨101⟩ 10000 }.setContract
    ⟨2⟩ (.token (sampleHoldings [(⟨24⟩, 10000)])) |>.setContract
    ⟨101⟩ (.wecy { balanceOf := Ledger.credit (fun _ => 0) ⟨24⟩ 10000, allowance := fun _ _ => 0 })
    |>.setPair sampleWecyPool (samplePair sampleWecyPool [])

def sampleWecyExchange : Chain :=
  { sampleWecyTokens with factory := sampleWecyTokens.factory.register ⟨2⟩ ⟨101⟩ ⟨24⟩ }

theorem sampleWecyExchange_empty : Router.Empty sampleDeployment sampleWecyExchange := by
  refine ⟨by decide +kernel, fun token => ?_⟩
  have hbalance : sampleWecyExchange.balanceOf token = sampleWecyTokens.balanceOf token := rfl
  rw [hbalance]
  simp only [sampleWecyTokens, Chain.setPair, Chain.balanceOf_setContract, Function.update_apply]
  split_ifs
  · decide +kernel
  · decide +kernel
  · decide +kernel
  · rfl

theorem sampleWecyExchange_registered : sampleWecyExchange.Registered := by
  have hpool : sampleWecyTokens.poolAt sampleWecyPool.pair = some sampleWecyPool := rfl
  have hnone : sampleWecyTokens.Registered := fun _ _ hne => absurd rfl hne
  exact hnone.register hpool

/-- For 600 of the first token the caller pays 641 of the 1000 that came with the
call. -/
theorem swapETHForExactTokens_sample :
    ∃ c', Router.executePayable sampleDeployment ⟨0, 1⟩ ⟨5⟩ ⟨6⟩ 0 1000 sampleWecyExchange
        (.swapETHForExactTokens 600 [⟨101⟩, ⟨2⟩]) = .ok (641, c') ∧
      Router.Empty sampleDeployment c' ∧ c'.native ⟨5⟩ + 641 = 1000 := by
  have hrun : Prod.fst <$> Router.executePayable sampleDeployment ⟨0, 1⟩ ⟨5⟩ ⟨6⟩ 0 1000
      sampleWecyExchange (.swapETHForExactTokens 600 [⟨101⟩, ⟨2⟩]) = .ok 641 := by decide +kernel
  obtain ⟨⟨_, c'⟩, hrun, rfl⟩ := except_map_ok_iff.mp hrun
  obtain ⟨-, hpayable⟩ := @router_keeps_nothing sampleDeployment ⟨0, 1⟩ sampleWecyExchange ⟨5⟩ ⟨6⟩ 0
    sampleWecyExchange_registered (by decide +kernel) (by decide +kernel) sampleWecyExchange_empty
    (by decide) (by decide)
  obtain ⟨hempty, -, hpaid, -⟩ := hpayable _ _ _ _ hrun
  exact ⟨c', hrun, hempty, hpaid⟩

/-- A pair that has grown since the protocol fee was last taken, with the router as
the account that takes it. -/
def sampleGrownTokens : Chain :=
  ((Chain.initial ⟨9⟩).setContract ⟨2⟩
    (.token (sampleHoldings [(⟨21⟩, 10000), (⟨5⟩, 1000)]))).setContract
    ⟨3⟩ (.token (sampleHoldings [(⟨21⟩, 10000), (⟨5⟩, 1000)])) |>.setPair
    samplePool23 { samplePair samplePool23 [(⟨7⟩, 10000)] with kLast := 1000000 }

def sampleFeeToRouter : Chain :=
  { sampleGrownTokens with
    factory := { sampleGrownTokens.factory.register ⟨2⟩ ⟨3⟩ ⟨21⟩ with feeTo := ⟨100⟩ } }

theorem sampleFeeToRouter_empty : Router.Empty sampleDeployment sampleFeeToRouter := by
  refine ⟨rfl, fun token => ?_⟩
  have hbalance : sampleFeeToRouter.balanceOf token = sampleGrownTokens.balanceOf token := rfl
  rw [hbalance]
  simp only [sampleGrownTokens, Chain.setPair, Chain.balanceOf_setContract, Function.update_apply]
  split_ifs
  · decide +kernel
  · decide +kernel
  · decide +kernel
  · rfl

/-- The protocol fee of the pair stays with the router. -/
theorem addLiquidity_feeTo_router :
    let c := sampleFeeToRouter
    c.Registered ∧ c.poolAt sampleDeployment.router = none ∧ Router.Empty sampleDeployment c ∧
      ∃ c', Router.executeNonpayable sampleDeployment ⟨0, 1⟩ ⟨5⟩ ⟨6⟩ 0 c
          (.addLiquidity ⟨2⟩ ⟨3⟩ 100 100 0 0) = .ok c' ∧
        c'.balanceOf ⟨21⟩ sampleDeployment.router = 1764 := by
  have hregistered : sampleFeeToRouter.Registered := by
    have hpool : sampleGrownTokens.poolAt samplePool23.pair = some samplePool23 := rfl
    have hnone : sampleGrownTokens.Registered := fun _ _ hne => absurd rfl hne
    exact hnone.register hpool
  have hrun : (fun c => c.balanceOf ⟨21⟩ sampleDeployment.router) <$> Router.executeNonpayable
      sampleDeployment ⟨0, 1⟩ ⟨5⟩ ⟨6⟩ 0 sampleFeeToRouter (.addLiquidity ⟨2⟩ ⟨3⟩ 100 100 0 0) =
      .ok 1764 := by decide +kernel
  obtain ⟨c', hrun, hfee⟩ := except_map_ok_iff.mp hrun
  exact ⟨hregistered, by decide +kernel, sampleFeeToRouter_empty, c', hrun, hfee⟩

end EnergyChain.Dex
