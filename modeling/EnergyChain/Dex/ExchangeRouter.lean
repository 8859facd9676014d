import EnergyChain.Dex.ExchangeCalls
import EnergyChain.Dex.ExchangeInvariant

/-!
# The router and the pairs

Every entry point of the router keeps the exchange in order, and with the fee off
lowers the value of no share. It is made of calls that the router pays for, of
functions of pairs, and of new pairs.
-/

namespace EnergyChain.Dex

open Library

variable {d : Deployment} {block : Block} {c c' : Chain} {k : d.Terms}
  {sender dst pair token tokenA tokenB : Address} {value deadline : ℕ}

theorem Chain.SpentBy.router (h : SpentBy d d.router c c') (hc : d.InOrder c) :
    d.Kept k c c' := by
  apply h.kept hc d.router_ne_zero
  · exact fun salt => (d.create2_ne_router salt).symm
  · exact fun a _ => a.ne_router

theorem Chain.SpentBy.outsider {a : d.Outsider} (h : SpentBy d a.address c c') (hc : d.InOrder c)
    (hidle : ∀ b, k.idle b → b.address ≠ a.address) : d.Kept k c c' :=
  h.kept hc a.ne_zero a.ne_pair hidle

namespace Router

variable {a : d.Outsider}

/-! ### Token calls -/

theorem safeTransfer_kept (hc : d.InOrder c) (h : safeTransfer d token dst value c = .ok c') :
    d.Kept k c c' := by
  unfold safeTransfer at h
  split at h
  · case _ c₁ htransfer =>
    obtain rfl := Except.ok.inj h
    exact (Chain.SpentBy.transfer htransfer).router hc
  · cases h

theorem safeTransferFrom_kept {src : Address} (hc : d.InOrder c)
    (h : safeTransferFrom d token src dst value c = .ok c') : d.Kept k c c' := by
  unfold safeTransferFrom at h
  split at h
  · case _ c₁ htransfer =>
    obtain rfl := Except.ok.inj h
    exact (Chain.SpentBy.transferFrom htransfer).router hc
  · cases h

theorem wrapInto_kept (hc : d.InOrder c) (h : wrapInto d pair value c = .ok c') :
    d.Kept k c c' := by
  simp only [wrapInto, except_bind_ok_iff] at h
  obtain ⟨c₁, hdeposit, htransfer⟩ := h
  have hspent : Chain.SpentBy d d.router c c₁ :=
    .deposit hc.wecy d.router_ne_weth hdeposit d.router
  exact (hspent.trans (.transfer htransfer)).router hc

theorem unwrapTo_kept (hc : d.InOrder c) (h : unwrapTo d dst value c = .ok c') :
    d.Kept k c c' := by
  simp only [unwrapTo, except_bind_ok_iff] at h
  obtain ⟨c₁, hwithdraw, htransfer⟩ := h
  have hspent : Chain.SpentBy d d.router c c₁ := .withdraw hc.wecy d.router_ne_weth hwithdraw
  apply (hspent.router hc).andThen hc
  intro hc₁
  exact (Chain.SpentBy.transferNative hc₁.wecy d.router_ne_weth htransfer d.router).router hc₁

theorem refund_kept {spent : ℕ} (hc : d.InOrder c) (h : refund d sender value spent c = .ok c') :
    d.Kept k c c' := by
  unfold refund at h
  split_ifs at h
  · exact (Chain.SpentBy.transferNative hc.wecy d.router_ne_weth h d.router).router hc
  · obtain rfl := Except.ok.inj h
    exact .refl hc

/-! ### Calls of a pair -/

theorem callPair_storage {f : PairStorage → Except Revert PairStorage}
    (h : (c.callPair pair fun _ w => do
      let storage ← f w.pair
      return ((), w.withPair storage)) = .ok ((), c')) :
    ∃ (pool : Pool) (p p' : PairStorage), c.contract pool.pair = .pair pool rfl p ∧
      f p = .ok p' ∧ c' = c.setContract pool.pair (.pair pool rfl p') := by
  obtain ⟨pool, p, w, -, hp, hrun, rfl⟩ := Chain.callPair_ok h
  simp only [except_bind_ok_iff, except_pure_ok_iff, Prod.mk.injEq, true_and] at hrun
  obtain ⟨p', hstorage, rfl⟩ := hrun
  exact ⟨pool, p, p', hp, hstorage, Chain.write_withPair⟩

theorem callPermit_kept {m : PermitMessage} {signature : Signature} (hc : d.InOrder c)
    (howner : ∀ digest, d.ecrecover digest signature = m.owner → ∀ salt, m.owner ≠ d.create2 salt)
    (hidle : ∀ b, k.idle b → b.address ≠ m.owner)
    (h : (c.callPair pair fun _ w => do
      let storage ← w.pair.permit d.keccak256 d.ecrecover block m signature
      return ((), w.withPair storage)) = .ok ((), c')) : d.Kept k c c' := by
  obtain ⟨pool, p, p', hp, hpermit, rfl⟩ := callPair_storage h
  simp only [PairStorage.permit, except_bind_ok_iff, require_ok_iff, checkedAdd_ok_iff,
    except_pure_ok_iff] at hpermit
  obtain ⟨-, -, nonce, -, -, ⟨hne, hsigner⟩, rfl⟩ := hpermit
  have hpair := howner _ hsigner
  rw [hsigner] at hne
  have hspent : Chain.SpentBy d m.owner c (c.setContract pool.pair (.pair pool rfl
      (({ p with nonces := Function.update p.nonces m.owner nonce } : PairStorage).withToken
        (p.toERC20.approve m.owner m.spender m.value)))) := by
    apply Chain.SpentBy.setPair hp
    · exact fun a ha => .approve ha
    · exact fun _ => ⟨rfl, rfl, rfl, rfl, rfl⟩
  exact hspent.kept hc hne hpair hidle

theorem permit_kept {liquidity : ℕ} {permission : Permission} (hc : d.InOrder c)
    (hidle : ∀ b, k.idle b → b.address ≠ a.address)
    (h : permit d block a.address tokenA tokenB liquidity deadline permission c = .ok c') :
    d.Kept k c c' := by
  simp only [permit, except_bind_ok_iff, except_pure_ok_iff] at h
  obtain ⟨⟨_, _⟩, hcall, rfl⟩ := h
  exact callPermit_kept hc (fun _ _ => a.ne_pair) hidle hcall

theorem liquidityTransfer_kept {liquidity : ℕ} (hc : d.InOrder c)
    (h : (c.callPair pair fun _ w => do
      let t ← w.pair.toERC20.transferFrom d.router sender pair liquidity
      return ((), w.withPair (w.pair.withToken t))) = .ok ((), c')) : d.Kept k c c' := by
  obtain ⟨pool, p, w, -, hp, hrun, rfl⟩ := Chain.callPair_ok h
  simp only [except_bind_ok_iff, except_pure_ok_iff, Prod.mk.injEq, true_and] at hrun
  obtain ⟨t, htransfer, rfl⟩ := hrun
  have hspent : Chain.SpentBy d d.router c (c.setContract pool.pair (.pair pool rfl
      (p.withToken t))) := by
    apply Chain.SpentBy.setPair hp
    · exact fun a _ => .transferFrom htransfer
    · exact fun _ => ⟨ERC20.transferFrom_totalSupply htransfer, rfl, rfl, rfl, rfl⟩
  rw [Chain.write_withPair]
  exact hspent.router hc

theorem swapPair_kept {input token0 : Address} (hc : d.InOrder c)
    (h : swapPair block pair input token0 value dst c = .ok c') : d.Kept k c c' := by
  simp only [swapPair, except_bind_ok_iff, except_pure_ok_iff] at h
  obtain ⟨⟨_, _⟩, hswap, rfl⟩ := h
  exact .swap hc hswap

/-! ### Liquidity -/

theorem ensurePair_kept (hc : d.InOrder c) (h : ensurePair d tokenA tokenB c = .ok c') :
    d.Kept k c c' := by
  unfold ensurePair at h
  split_ifs at h
  · simp only [except_bind_ok_iff, except_pure_ok_iff] at h
    obtain ⟨⟨_, _⟩, hcreate, rfl⟩ := h
    exact .createPair hc hcreate
  · obtain rfl := Except.ok.inj h
    exact .refl hc

theorem liquidityAmounts_kept {amountADesired amountBDesired amountAMin amountBMin : ℕ}
    {amounts : ℕ × ℕ} (hc : d.InOrder c)
    (h : liquidityAmounts d tokenA tokenB amountADesired amountBDesired amountAMin amountBMin c =
      .ok (amounts, c')) : d.Kept k c c' := by
  simp only [liquidityAmounts, except_bind_ok_iff] at h
  obtain ⟨c₁, hensure, _, -, h⟩ := h
  split_ifs at h
  · simp only [except_bind_ok_iff, except_pure_ok_iff, Prod.mk.injEq] at h
    obtain ⟨-, -, -, rfl⟩ := h
    exact ensurePair_kept hc hensure
  · simp only [except_bind_ok_iff, except_pure_ok_iff, Prod.mk.injEq] at h
    obtain ⟨-, -, -, rfl⟩ := h
    exact ensurePair_kept hc hensure

section Entry

variable {amountAMin amountBMin liquidity : ℕ} {path : List Address} {amounts : List ℕ}

theorem addLiquidity_kept {amountADesired amountBDesired : ℕ} {result : ℕ × ℕ × ℕ}
    (hc : d.InOrder c)
    (h : addLiquidity d block sender tokenA tokenB amountADesired amountBDesired amountAMin
      amountBMin dst deadline c = .ok (result, c')) : d.Kept k c c' := by
  simp only [addLiquidity, except_bind_ok_iff, except_pure_ok_iff, Prod.mk.injEq] at h
  obtain ⟨-, -, ⟨_, c₁⟩, hamounts, c₂, hpaidA, c₃, hpaidB, ⟨_, c₄⟩, hmint, -, rfl⟩ := h
  apply (liquidityAmounts_kept hc hamounts).andThen hc
  intro hc₁
  apply (safeTransferFrom_kept hc₁ hpaidA).andThen hc₁
  intro hc₂
  apply (safeTransferFrom_kept hc₂ hpaidB).andThen hc₂
  exact fun hc₃ => .mint hc₃ hmint

theorem addLiquidityETH_kept {amountTokenDesired : ℕ} {result : ℕ × ℕ × ℕ} (hc : d.InOrder c)
    (h : addLiquidityETH d block sender value token amountTokenDesired amountAMin amountBMin dst
      deadline c = .ok (result, c')) : d.Kept k c c' := by
  simp only [addLiquidityETH, except_bind_ok_iff, except_pure_ok_iff, Prod.mk.injEq] at h
  obtain ⟨-, -, ⟨_, c₁⟩, hamounts, c₂, hpaid, c₃, hwrap, ⟨_, c₄⟩, hmint, c₅, hrefund, -, rfl⟩ := h
  apply (liquidityAmounts_kept hc hamounts).andThen hc
  intro hc₁
  apply (safeTransferFrom_kept hc₁ hpaid).andThen hc₁
  intro hc₂
  apply (wrapInto_kept hc₂ hwrap).andThen hc₂
  intro hc₃
  apply Deployment.Kept.andThen (.mint hc₃ hmint) hc₃
  exact fun hc₄ => refund_kept hc₄ hrefund

theorem removeLiquidity_kept {result : ℕ × ℕ} (hc : d.InOrder c)
    (h : removeLiquidity d block sender tokenA tokenB liquidity amountAMin amountBMin dst deadline
      c = .ok (result, c')) : d.Kept k c c' := by
  simp only [removeLiquidity, except_bind_ok_iff, except_pure_ok_iff, Prod.mk.injEq] at h
  obtain ⟨-, -, ⟨_, c₁⟩, htransfer, ⟨_, c₂⟩, hburn, _, -, -, -, -, -, -, rfl⟩ := h
  apply (liquidityTransfer_kept hc htransfer).andThen hc
  exact fun hc₁ => .burn hc₁ hburn

theorem removeLiquidityETH_kept {result : ℕ × ℕ} (hc : d.InOrder c)
    (h : removeLiquidityETH d block sender token liquidity amountAMin amountBMin dst deadline c =
      .ok (result, c')) : d.Kept k c c' := by
  simp only [removeLiquidityETH, except_bind_ok_iff, except_pure_ok_iff, Prod.mk.injEq] at h
  obtain ⟨-, -, ⟨_, c₁⟩, hremove, c₂, htransfer, c₃, hunwrap, -, rfl⟩ := h
  apply (removeLiquidity_kept hc hremove).andThen hc
  intro hc₁
  apply (safeTransfer_kept hc₁ htransfer).andThen hc₁
  exact fun hc₂ => unwrapTo_kept hc₂ hunwrap

theorem removeLiquidityETHSupportingFeeOnTransferTokens_kept {amountETH : ℕ} (hc : d.InOrder c)
    (h : removeLiquidityETHSupportingFeeOnTransferTokens d block sender token liquidity amountAMin
      amountBMin dst deadline c = .ok (amountETH, c')) : d.Kept k c c' := by
  simp only [removeLiquidityETHSupportingFeeOnTransferTokens, except_bind_ok_iff,
    except_pure_ok_iff, Prod.mk.injEq] at h
  obtain ⟨-, -, ⟨_, c₁⟩, hremove, c₂, htransfer, c₃, hunwrap, -, rfl⟩ := h
  apply (removeLiquidity_kept hc hremove).andThen hc
  intro hc₁
  apply (safeTransfer_kept hc₁ htransfer).andThen hc₁
  exact fun hc₂ => unwrapTo_kept hc₂ hunwrap

/-! ### Swaps along a path -/

theorem swap_kept (hc : d.InOrder c) (h : swap block dst amounts path c = .ok c') :
    d.Kept k c c' := by
  induction path generalizing amounts c with
  | nil =>
    obtain rfl := Except.ok.inj h
    exact .refl hc
  | cons input rest ih =>
    cases rest with
    | nil =>
      obtain rfl := Except.ok.inj h
      exact .refl hc
    | cons output rest =>
      simp only [swap, except_bind_ok_iff] at h
      obtain ⟨_, -, _, -, c₁, hfirst, hrest⟩ := h
      apply (swapPair_kept hc hfirst).andThen hc
      exact fun hc₁ => ih hc₁ hrest

theorem swapSupportingFeeOnTransferTokens_kept (hc : d.InOrder c)
    (h : swapSupportingFeeOnTransferTokens block dst path c = .ok c') : d.Kept k c c' := by
  induction path generalizing c with
  | nil =>
    obtain rfl := Except.ok.inj h
    exact .refl hc
  | cons input rest ih =>
    cases rest with
    | nil =>
      obtain rfl := Except.ok.inj h
      exact .refl hc
    | cons output rest =>
      simp only [swapSupportingFeeOnTransferTokens, swapSurplus, except_bind_ok_iff] at h
      obtain ⟨c₁, ⟨_, -, _, -, _, -, _, -, hfirst⟩, hrest⟩ := h
      apply (swapPair_kept hc hfirst).andThen hc
      exact fun hc₁ => ih hc₁ hrest

theorem payFirst_kept (hc : d.InOrder c) (h : payFirst d sender path value c = .ok c') :
    d.Kept k c c' := by
  simp only [payFirst, except_bind_ok_iff] at h
  obtain ⟨_, -, _, -, hpaid⟩ := h
  exact safeTransferFrom_kept hc hpaid

section Tokens

variable {amountIn amountOut amountInMax amountOutMin : ℕ} {traded : List ℕ}

theorem swapExactTokensForTokens_kept (hc : d.InOrder c)
    (h : swapExactTokensForTokens d block sender amountIn amountOutMin path dst deadline c =
      .ok (traded, c')) : d.Kept k c c' := by
  simp only [swapExactTokensForTokens, except_bind_ok_iff, except_pure_ok_iff, Prod.mk.injEq] at h
  obtain ⟨-, -, _, -, _, -, -, -, _, -, c₁, hpay, c₂, hswap, -, rfl⟩ := h
  apply (payFirst_kept hc hpay).andThen hc
  exact fun hc₁ => swap_kept hc₁ hswap

theorem swapTokensForExactTokens_kept (hc : d.InOrder c)
    (h : swapTokensForExactTokens d block sender amountOut amountInMax path dst deadline c =
      .ok (traded, c')) : d.Kept k c c' := by
  simp only [swapTokensForExactTokens, except_bind_ok_iff, except_pure_ok_iff, Prod.mk.injEq] at h
  obtain ⟨-, -, _, -, _, -, -, -, c₁, hpay, c₂, hswap, -, rfl⟩ := h
  apply (payFirst_kept hc hpay).andThen hc
  exact fun hc₁ => swap_kept hc₁ hswap

theorem swapTokensForExactETH_kept (hc : d.InOrder c)
    (h : swapTokensForExactETH d block sender amountOut amountInMax path dst deadline c =
      .ok (traded, c')) : d.Kept k c c' := by
  simp only [swapTokensForExactETH, except_bind_ok_iff, except_pure_ok_iff, Prod.mk.injEq] at h
  obtain ⟨-, -, _, -, -, -, _, -, _, -, -, -, c₁, hpay, c₂, hswap, _, -, c₃, hunwrap, -, rfl⟩ := h
  apply (payFirst_kept hc hpay).andThen hc
  intro hc₁
  apply (swap_kept hc₁ hswap).andThen hc₁
  exact fun hc₂ => unwrapTo_kept hc₂ hunwrap

theorem swapExactTokensForETH_kept (hc : d.InOrder c)
    (h : swapExactTokensForETH d block sender amountIn amountOutMin path dst deadline c =
      .ok (traded, c')) : d.Kept k c c' := by
  simp only [swapExactTokensForETH, except_bind_ok_iff, except_pure_ok_iff, Prod.mk.injEq] at h
  obtain ⟨-, -, _, -, -, -, _, -, _, -, -, -, _, -, c₁, hpay, c₂, hswap, c₃, hunwrap, -, rfl⟩ := h
  apply (payFirst_kept hc hpay).andThen hc
  intro hc₁
  apply (swap_kept hc₁ hswap).andThen hc₁
  exact fun hc₂ => unwrapTo_kept hc₂ hunwrap

theorem swapExactTokensForTokensSupportingFeeOnTransferTokens_kept (hc : d.InOrder c)
    (h : swapExactTokensForTokensSupportingFeeOnTransferTokens d block sender amountIn amountOutMin
      path dst deadline c = .ok c') : d.Kept k c c' := by
  simp only [swapExactTokensForTokensSupportingFeeOnTransferTokens, except_bind_ok_iff,
    except_pure_ok_iff] at h
  obtain ⟨-, -, c₁, hpay, _, -, c₂, hswap, _, -, -, -, rfl⟩ := h
  apply (payFirst_kept hc hpay).andThen hc
  exact fun hc₁ => swapSupportingFeeOnTransferTokens_kept hc₁ hswap

theorem swapExactTokensForETHSupportingFeeOnTransferTokens_kept (hc : d.InOrder c)
    (h : swapExactTokensForETHSupportingFeeOnTransferTokens d block sender amountIn amountOutMin
      path dst deadline c = .ok c') : d.Kept k c c' := by
  simp only [swapExactTokensForETHSupportingFeeOnTransferTokens, except_bind_ok_iff] at h
  obtain ⟨-, -, _, -, -, -, c₁, hpay, c₂, hswap, -, -, hunwrap⟩ := h
  apply (payFirst_kept hc hpay).andThen hc
  intro hc₁
  apply (swapSupportingFeeOnTransferTokens_kept hc₁ hswap).andThen hc₁
  exact fun hc₂ => unwrapTo_kept hc₂ hunwrap

end Tokens

/-! ### All entry points -/

theorem executeNonpayable_kept {call : NonpayableCall} (hc : d.InOrder c)
    (hidle : ∀ b, k.idle b → b.address ≠ a.address)
    (h : executeNonpayable d block a.address dst deadline c call = .ok c') : d.Kept k c c' := by
  cases call <;> simp only [executeNonpayable, except_map_ok_iff] at h
  case addLiquidity =>
    obtain ⟨⟨_, _⟩, h, rfl⟩ := h
    exact addLiquidity_kept hc h
  case removeLiquidity =>
    obtain ⟨⟨_, _⟩, h, rfl⟩ := h
    exact removeLiquidity_kept hc h
  case removeLiquidityETH =>
    obtain ⟨⟨_, _⟩, h, rfl⟩ := h
    exact removeLiquidityETH_kept hc h
  case removeLiquidityETHSupportingFeeOnTransferTokens =>
    obtain ⟨⟨_, _⟩, h, rfl⟩ := h
    exact removeLiquidityETHSupportingFeeOnTransferTokens_kept hc h
  -- with a permit the sender approves the router before liquidity is removed
  case removeLiquidityWithPermit =>
    simp only [removeLiquidityWithPermit, except_bind_ok_iff] at h
    obtain ⟨⟨_, _⟩, ⟨c₁, hpermit, h⟩, rfl⟩ := h
    exact (permit_kept hc hidle hpermit).andThen hc fun hc₁ => removeLiquidity_kept hc₁ h
  case removeLiquidityETHWithPermit =>
    simp only [removeLiquidityETHWithPermit, except_bind_ok_iff] at h
    obtain ⟨⟨_, _⟩, ⟨c₁, hpermit, h⟩, rfl⟩ := h
    exact (permit_kept hc hidle hpermit).andThen hc fun hc₁ => removeLiquidityETH_kept hc₁ h
  case removeLiquidityETHWithPermitSupportingFeeOnTransferTokens =>
    simp only [removeLiquidityETHWithPermitSupportingFeeOnTransferTokens, except_bind_ok_iff] at h
    obtain ⟨⟨_, _⟩, ⟨c₁, hpermit, h⟩, rfl⟩ := h
    apply (permit_kept hc hidle hpermit).andThen hc
    exact fun hc₁ => removeLiquidityETHSupportingFeeOnTransferTokens_kept hc₁ h
  case swapExactTokensForTokens =>
    obtain ⟨⟨_, _⟩, h, rfl⟩ := h
    exact swapExactTokensForTokens_kept hc h
  case swapTokensForExactTokens =>
    obtain ⟨⟨_, _⟩, h, rfl⟩ := h
    exact swapTokensForExactTokens_kept hc h
  case swapTokensForExactETH =>
    obtain ⟨⟨_, _⟩, h, rfl⟩ := h
    exact swapTokensForExactETH_kept hc h
  case swapExactTokensForETH =>
    obtain ⟨⟨_, _⟩, h, rfl⟩ := h
    exact swapExactTokensForETH_kept hc h
  case swapExactTokensForTokensSupportingFeeOnTransferTokens =>
    exact swapExactTokensForTokensSupportingFeeOnTransferTokens_kept hc h
  case swapExactTokensForETHSupportingFeeOnTransferTokens =>
    exact swapExactTokensForETHSupportingFeeOnTransferTokens_kept hc h

theorem pay_kept (hc : d.InOrder c) (h : c.pay a.address d.router value = .ok c') :
    d.Kept k c c' :=
  (Chain.SpentBy.pay hc.wecy a.ne_weth d.router_ne_weth h d.router).router hc

theorem executePayable_kept {call : PayableCall} {wrapped : ℕ} (hc : d.InOrder c)
    (h : executePayable d block a.address dst deadline value c call = .ok (wrapped, c')) :
    d.Kept k c c' := by
  cases call <;> simp only [executePayable, except_bind_ok_iff, except_pure_ok_iff,
    Prod.mk.injEq] at h
  case addLiquidityETH =>
    obtain ⟨c₁, hpay, ⟨_, c₂⟩, h, -, rfl⟩ := h
    apply (pay_kept hc hpay).andThen hc
    exact fun hc₁ => addLiquidityETH_kept hc₁ h
  case swapExactETHForTokens =>
    obtain ⟨c₁, hpay, ⟨_, c₂⟩, h, _, -, -, rfl⟩ := h
    simp only [swapExactETHForTokens, except_bind_ok_iff, except_pure_ok_iff, Prod.mk.injEq] at h
    obtain ⟨-, -, _, -, -, -, _, -, _, -, -, -, _, -, _, -, c₃, hwrap, c₄, hswap, -, rfl⟩ := h
    apply (pay_kept hc hpay).andThen hc
    intro hc₁
    apply (wrapInto_kept hc₁ hwrap).andThen hc₁
    exact fun hc₃ => swap_kept hc₃ hswap
  case swapETHForExactTokens =>
    obtain ⟨c₁, hpay, ⟨_, c₂⟩, h, _, -, -, rfl⟩ := h
    simp only [swapETHForExactTokens, except_bind_ok_iff, except_pure_ok_iff, Prod.mk.injEq] at h
    obtain ⟨-, -, _, -, -, -, _, -, _, -, -, -, _, -, c₃, hwrap, c₄, hswap, c₅, hrefund, -,
      rfl⟩ := h
    apply (pay_kept hc hpay).andThen hc
    intro hc₁
    apply (wrapInto_kept hc₁ hwrap).andThen hc₁
    intro hc₃
    apply (swap_kept hc₃ hswap).andThen hc₃
    exact fun hc₄ => refund_kept hc₄ hrefund
  case swapExactETHForTokensSupportingFeeOnTransferTokens =>
    obtain ⟨c₁, hpay, c₂, h, -, rfl⟩ := h
    simp only [swapExactETHForTokensSupportingFeeOnTransferTokens, except_bind_ok_iff,
      except_pure_ok_iff] at h
    obtain ⟨-, -, _, -, -, -, _, -, c₃, hwrap, _, -, c₄, hswap, _, -, -, -, rfl⟩ := h
    apply (pay_kept hc hpay).andThen hc
    intro hc₁
    apply (wrapInto_kept hc₁ hwrap).andThen hc₁
    exact fun hc₃ => swapSupportingFeeOnTransferTokens_kept hc₃ hswap

end Entry
end Router
end EnergyChain.Dex
