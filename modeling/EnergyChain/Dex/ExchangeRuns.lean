import EnergyChain.Dex.ExchangeRouter
import EnergyChain.Dex.PairSafety

/-!
# Runs of the exchange

From its deployment on the exchange is at rest between transactions, whatever they
are and whatever the callbacks of flash swaps do: every pair keeps its invariant,
with the fee off no share loses value, and who takes no part loses no tokens.
-/

namespace EnergyChain.Dex

variable {d : Deployment} {k : d.Terms} {block : Block} {c c' : Chain} {pool : Pool}
  {w w' w₁ w₂ : World} {p : PairStorage} {pair token dst spender : Address}
  {amount0Out amount1Out : ℕ}

/-! ### The halves of a swap -/

theorem beginSwap_ok (h : pool.beginSwap amount0Out amount1Out dst w = .ok w') :
    w.pair.unlocked = 1 ∧ ∃ token0 token1, pool.payOut w.token0 dst amount0Out = .ok token0 ∧
      pool.payOut w.token1 dst amount1Out = .ok token1 ∧
      w' = { w.setUnlocked 0 with token0, token1 } := by
  simp only [Pool.beginSwap, except_bind_ok_iff, require_ok_iff, except_pure_ok_iff] at h
  obtain ⟨-, hopen, -, -, -, -, -, -, token0, hpaid₀, token1, hpaid₁, rfl⟩ := h
  exact ⟨hopen, token0, token1, hpaid₀, hpaid₁, rfl⟩

theorem Pool.Spends.beginSwap (h : pool.beginSwap amount0Out amount1Out dst w = .ok w') :
    pool.Spends w w' := by
  obtain ⟨-, token0, token1, hpaid₀, hpaid₁, rfl⟩ := beginSwap_ok h
  exact ⟨fun a _ => .refl _ _, .payOut hpaid₀, .payOut hpaid₁, rfl⟩

theorem Pool.Spends.endSwap {reserve0 reserve1 : ℕ}
    (h : pool.endSwap block reserve0 reserve1 amount0Out amount1Out w = .ok w') :
    pool.Spends w w' := by
  simp only [Pool.endSwap, except_bind_ok_iff, except_pure_ok_iff] at h
  obtain ⟨_, -, _, -, -, -, _, -, _, -, _, -, _, -, _, -, -, -, p, hupdate, rfl⟩ := h
  have htoken : p.toERC20 = w.pair.toERC20 := (update_ok hupdate).2.2.1
  refine ⟨fun a _ => ?_, .refl _ _, .refl _ _, rfl⟩
  change ERC20.Keeps a w.pair.toERC20 p.toERC20
  rw [htoken]
  exact .refl _ _

theorem Chain.callPair_pair {α : Type} {f : Pool → World → Except Revert (α × World)}
    (hp : c.contract pool.pair = .pair pool rfl p) : c.callPair pool.pair f = (do
      let (result, w) ← f pool (c.world pool p)
      return (result, c.write pool w)) := by
  rw [callPair, hp]

/-- Without data nobody is called, and the halves are the swap that the router uses. -/
theorem Chain.callSwap_nil (hp : c.contract pool.pair = .pair pool rfl p) (callee : Chain → Chain) :
    c.callSwap block pool.pair amount0Out amount1Out dst [] callee =
      Prod.snd <$> c.callPair pool.pair fun pool =>
        pool.swap block amount0Out amount1Out dst [] .ok := by
  rw [callPair_pair hp, callSwap, hp]
  dsimp only
  rw [Pool.swap_eq]
  cases hbegin : pool.beginSwap amount0Out amount1Out dst (c.world pool p) with
  | error e => rfl
  | ok w₁ =>
    obtain ⟨hread, hworld⟩ := world_write (Pool.Spends.beginSwap hbegin)
    have hdata : ¬ ([] : Bytes).length > 0 := Nat.lt_irrefl 0
    have hcall : Pool.call [] .ok w₁ = .ok w₁ := if_neg hdata
    have hreserves : (c.world pool p).pair = p := rfl
    simp only [except_ok_bind, if_neg hdata, callPair_pair hread, hworld, hcall]
    cases hend : pool.endSwap block p.reserve0 p.reserve1 amount0Out amount1Out w₁ with
    | error e =>
      simp only [hreserves, hend]
      rfl
    | ok w₃ =>
      simp only [hreserves, hend, except_ok_bind, write_write]
      rfl

theorem beginSwap_guarded (hw : Settled pool w)
    (h : pool.beginSwap amount0Out amount1Out dst w = .ok w') :
    Guarded pool w' ∧ w'.pair.unlocked ≠ 1 ∧ w'.token0.Unapproved pool.pair ∧
      w'.token1.Unapproved pool.pair := by
  obtain ⟨-, token0, token1, hpaid₀, hpaid₁, rfl⟩ := beginSwap_ok h
  have hlocked : (w.setUnlocked 0).pair.unlocked ≠ 1 := zero_ne_one
  refine ⟨⟨(hw.setUnlocked 0).sound, (hw.setUnlocked 0).last, fun hopen => absurd hopen hlocked⟩,
    hlocked, ?_, ?_⟩
  · exact payOut_unapproved hpaid₀ hw.unapproved0
  · exact payOut_unapproved hpaid₁ hw.unapproved1

/-- Both halves are a swap whose callee has done what happened between them. -/
theorem swap_effect_of_halves (hw : Settled pool w)
    (hbegin : pool.beginSwap amount0Out amount1Out dst w = .ok w₁) (hout : Outside pool w₁ w₂)
    (hend : pool.endSwap block w.pair.reserve0 w.pair.reserve1 amount0Out amount1Out w₂ =
      .ok w') : Effect pool w w' ∧ w'.pair.unlocked = 1 := by
  classical
  have hswap : pool.swap block amount0Out amount1Out dst [0]
      (fun w => if w = w₁ then .ok w₂ else .error (.error [])) w = .ok ((), w') := by
    have hcall : Pool.call [0] (fun w => if w = w₁ then .ok w₂ else .error (.error [])) w₁ =
        .ok w₂ := if_pos rfl
    rw [Pool.swap_eq, hbegin, except_ok_bind, hcall, except_ok_bind, hend]
    rfl
  apply swap_effect hw _ hswap
  intro x y _ hcall
  split_ifs at hcall with hx
  rw [hx, ← Except.ok.inj hcall]
  exact hout

namespace Deployment.Kept

section Around

variable {c₂ : Chain} {p₂ : PairStorage}

/-- The pair itself is locked meanwhile, so the calls of others stay outside. -/
theorem around_effect {w₃ : World} (hc : d.InOrder c) (hp : c.contract pool.pair = .pair pool rfl p)
    (hbegin : pool.beginSwap amount0Out amount1Out dst (c.world pool p) = .ok w₁)
    (hkept : d.Kept k (c.write pool w₁) c₂) (hp₂ : c₂.contract pool.pair = .pair pool rfl p₂)
    (hend : pool.endSwap block p.reserve0 p.reserve1 amount0Out amount1Out (c₂.world pool p₂) =
      .ok w₃) : Effect pool (c.world pool p) w₃ ∧ w₃.pair.unlocked = 1 := by
  have hsettled := hc.settled hp (beginSwap_ok hbegin).1
  obtain ⟨-, hlocked, -⟩ := beginSwap_guarded hsettled hbegin
  have hout : Outside pool w₁ (c₂.world pool p₂) := by
    obtain ⟨hread₁, hworld₁⟩ := Chain.world_write (Pool.Spends.beginSwap hbegin)
    obtain ⟨p₂', hp₂', hpair⟩ := hkept.pairs pool w₁.pair hread₁
    obtain ⟨-, rfl⟩ := Contract.pair.inj (hp₂.symm.trans hp₂')
    rw [hworld₁] at hpair
    exact hpair.outside hlocked
  exact swap_effect_of_halves hsettled hbegin hout hend

theorem around_other {c₁ c₃ : Chain} {pool' : Pool} {p' : PairStorage} (hc : d.InOrder c)
    (hbefore : Chain.SpentBy d pool.pair c c₁) (hkept : d.Kept k c₁ c₂)
    (hafter : Chain.SpentBy d pool.pair c₂ c₃) (hfee : c₁.factory = c.factory)
    (hp' : c.contract pool'.pair = .pair pool' rfl p') (hne : pool'.pair ≠ pool.pair) :
    ∃ p₃, c₃.contract pool'.pair = .pair pool' rfl p₃ ∧
      PairKept k.feeKept pool' (c.world pool' p') (c₃.world pool' p₃) := by
  obtain ⟨p₁, hp₁, hout₁⟩ := hbefore.outside pool.pair_ne_zero hp' hne
  obtain ⟨p₂, hp₂, hkept₂⟩ := hkept.pairs pool' p₁ hp₁
  obtain ⟨p₃, hp₃, hout₃⟩ := hafter.outside pool.pair_ne_zero hp₂ hne
  have hsound := (hc.guarded pool' p' hp').sound
  have hsound₂ := (hkept.inOrder.guarded pool' p₂ hp₂).sound
  have hkept' := (hout₁.pairKept hsound).trans hkept₂ hsound (hout₁.sound hsound)
    fun _ => congrArg (fun f : Factory => f.feeTo) hfee
  refine ⟨p₃, hp₃, hkept'.trans (hout₃.pairKept hsound₂) hsound hsound₂ fun hfeeKept => ?_⟩
  exact (hkept.fee hfeeKept).trans (congrArg (fun f : Factory => f.feeTo) hfee)

theorem around {w₃ : World} (hc : d.InOrder c)
    (hp : c.contract pool.pair = .pair pool rfl p)
    (hbegin : pool.beginSwap amount0Out amount1Out dst (c.world pool p) = .ok w₁)
    (hkept : d.Kept k (c.write pool w₁) c₂) (hp₂ : c₂.contract pool.pair = .pair pool rfl p₂)
    (hend : pool.endSwap block p.reserve0 p.reserve1 amount0Out amount1Out (c₂.world pool p₂) =
      .ok w₃) : d.Kept k c (c₂.write pool w₃) := by
  have heffect := around_effect hc hp hbegin hkept hp₂ hend
  have hbefore : Chain.SpentBy d pool.pair c (c.write pool w₁) := .write hp (.beginSwap hbegin)
  have hafter : Chain.SpentBy d pool.pair c₂ (c₂.write pool w₃) := .write hp₂ (.endSwap hend)
  constructor
  case inOrder =>
    exact hkept.inOrder.write hp₂ (.endSwap hend) heffect.1.settled.guarded
      heffect.1.settled.unapproved0 heffect.1.settled.unapproved1
  case pairs =>
    intro pool' p' hp'
    by_cases hne : pool'.pair = pool.pair
    · obtain rfl := Chain.pool_unique hp hp' hne
      obtain ⟨-, rfl⟩ := Contract.pair.inj (hp.symm.trans hp')
      obtain ⟨hread₃, hworld₃⟩ := Chain.world_write (Pool.Spends.endSwap hend)
      refine ⟨w₃.pair, hread₃, ?_⟩
      rw [hworld₃]
      exact heffect.1.pairKept (beginSwap_ok hbegin).1 heffect.2
    · exact around_other hc hbefore hkept hafter rfl hp' hne
  case fresh =>
    intro pool' p' hp' hnone
    obtain ⟨p₂', hp₂'⟩ := hafter.exists_pair hp'
    have hne : pool'.pair ≠ pool.pair := by
      intro heq
      rw [heq, Chain.poolAt_of_contract hp] at hnone
      cases hnone
    obtain ⟨p₃', hp₃', hout₃⟩ := hafter.outside pool.pair_ne_zero hp₂' hne
    obtain ⟨-, rfl⟩ := Contract.pair.inj (hp'.symm.trans hp₃')
    exact hout₃.unlocked.trans (hkept.fresh pool' p₂' hp₂' (hbefore.poolAt.symm ▸ hnone))
  case fee => exact fun hfee => hkept.fee hfee
  case keeps =>
    intro a ha token
    obtain ⟨salt, hsalt⟩ := hc.exists_salt hp
    have hne : a.address ≠ pool.pair := hsalt ▸ a.ne_pair salt
    exact ((hbefore.keeps _ hne token).trans (hkept.keeps a ha token)).trans
      (hafter.keeps _ hne token)

end Around

theorem callSwap {data : Bytes} {callee : Chain → Chain} (hc : d.InOrder c)
    (hcallee : ∀ c, d.InOrder c → d.Kept k c (callee c))
    (h : c.callSwap block pair amount0Out amount1Out dst data callee = .ok c') :
    d.Kept k c c' := by
  unfold Chain.callSwap at h
  split at h
  · case _ pool deployed p hp =>
    subst deployed
    simp only [except_bind_ok_iff, except_pure_ok_iff] at h
    obtain ⟨w₁, hbegin, ⟨_, c₃⟩, hcall, rfl⟩ := h
    have hsettled := hc.settled hp (beginSwap_ok hbegin).1
    obtain ⟨hguarded, -, hu₀, hu₁⟩ := beginSwap_guarded hsettled hbegin
    have hc₁ : d.InOrder (c.write pool w₁) := hc.write hp (.beginSwap hbegin) hguarded hu₀ hu₁
    have hkept : d.Kept k (c.write pool w₁)
        (if data.length > 0 then callee (c.write pool w₁) else c.write pool w₁) := by
      split_ifs
      · exact hcallee _ hc₁
      · exact .refl hc₁
    obtain ⟨pool₂, p₂, w₃, heq, hp₂, hend, rfl⟩ := Chain.callPair_ok hcall
    simp only [except_bind_ok_iff, except_pure_ok_iff, Prod.mk.injEq, true_and] at hend
    obtain ⟨w₃, hend, rfl⟩ := hend
    obtain ⟨hread₁, -⟩ := Chain.world_write (Pool.Spends.beginSwap hbegin)
    obtain ⟨p₂', hp₂', -⟩ := hkept.pairs pool w₁.pair hread₁
    obtain rfl := Chain.pool_unique hp₂' hp₂ heq.symm
    exact around hc hp hbegin hkept hp₂ hend
  · cases h

end Deployment.Kept

/-! ### Calls of tokens and of the factory -/

namespace Chain

variable {sender : Address} {value : ℕ}

theorem SpentBy.approve : SpentBy d sender c (c.approve token sender dst value) := by
  unfold Chain.approve
  split
  · case _ wecy hw => exact .setWECY hw (.approve sender dst value)
  · exact .setToken (.approve sender dst value)

theorem SpentBy.callToken {f : ERC20 → Except Revert ERC20}
    (htoken : ∀ salt, token ≠ d.create2 salt)
    (hf : ∀ t t', f t = .ok t' → (∀ a, a ≠ spender → ERC20.Keeps a t t') ∧
      (t.totalSupply < uint256Size → t'.totalSupply < uint256Size))
    (h : c.callToken token f = .ok c') : SpentBy d spender c c' := by
  unfold Chain.callToken at h
  split at h
  · case _ t ht =>
    simp only [except_bind_ok_iff, except_pure_ok_iff] at h
    obtain ⟨t', hcall, rfl⟩ := h
    obtain ⟨hkeeps, hlt⟩ := hf t t' hcall
    have hnone : ∀ {c : Chain} {t : ERC20}, c.contract token = .token t →
        c.poolAt token = none := by
      intro c t ht
      rw [Chain.poolAt, pairView, ht]
      rfl
    apply SpentBy.of_onlyAt (OnlyAt.setContract c (.token t' : Contract token))
    · intro a ha
      rw [Chain.token, Chain.token, contract_setContract, ht]
      exact hkeeps a ha
    · intro pool p heq _ hp
      have hpool := poolAt_of_contract hp
      rw [← heq, hnone ht] at hpool
      cases hpool
    · intro t₁ ht₁
      rw [contract_setContract] at ht₁
      obtain rfl := Contract.token.inj ht₁
      exact ⟨t, ht, hlt⟩
    · intro salt hsalt
      exact absurd hsalt (htoken salt)
    · rw [hnone ht]
      exact hnone contract_setContract
    · intro w hw
      rw [contract_setContract] at hw
      cases hw
  · cases h

theorem SpentBy.issue {a : d.Outsider} (h : (c.callToken a.address fun t => t.mint dst value) =
    .ok c') (spender : Address) : SpentBy d spender c c' := by
  apply SpentBy.callToken a.ne_pair _ h
  intro t t' hmint
  refine ⟨fun b _ => (ERC20.Grows.mint hmint).keeps b, fun _ => ?_⟩
  obtain ⟨hlt, -, rfl⟩ := ERC20.mint_ok_iff.mp hmint
  exact hlt

theorem SpentBy.redeem {a : d.Outsider} (h : (c.callToken a.address fun t => t.burn sender value) =
    .ok c') : SpentBy d sender c c' := by
  apply SpentBy.callToken a.ne_pair _ h
  intro t t' hburn
  refine ⟨fun b hb => .burn hb hburn, fun hlt => ?_⟩
  obtain ⟨-, -, rfl⟩ := ERC20.burn_ok_iff.mp hburn
  exact (Nat.sub_le _ _).trans_lt hlt

end Chain

/-- A change of the fee setting that keeps who takes the fee, where that is asked. -/
theorem Deployment.Kept.callFactory {f : FeeSetting → Except Revert FeeSetting} (hc : d.InOrder c)
    (hf : ∀ s s', f s = .ok s' → k.feeKept → s'.feeTo = s.feeTo)
    (h : c.callFactory f = .ok c') : d.Kept k c c' := by
  simp only [Chain.callFactory, except_bind_ok_iff, except_pure_ok_iff] at h
  obtain ⟨setting, hset, rfl⟩ := h
  apply setFactory hc
  · exact hc.registered
  · exact hf _ _ hset

/-! ### All calls -/

section Execution

open Deployment

theorem Deployment.Kept.mono {k' : d.Terms} (h : d.Kept k c c') (hfee : k'.feeKept → k.feeKept)
    (hidle : ∀ a, k'.idle a → k.idle a) : d.Kept k' c c' where
  inOrder := h.inOrder
  pairs pool p hp := by
    obtain ⟨p', hp', hkept⟩ := h.pairs pool p hp
    exact ⟨p', hp', hkept.outside, hkept.unlocked, hkept.zeroBalance, hkept.notDiluted ∘ hfee⟩
  fresh := h.fresh
  fee := h.fee ∘ hfee
  keeps a ha := h.keeps a (hidle a ha)

open ExchangeCall

theorem ne_of_idle {sender a : Address} (h : decide (sender = a) = false) : a ≠ sender :=
  fun heq => of_decide_eq_false h heq.symm

mutual

theorem execute_kept (hkeyless : d.Keyless) (call : ExchangeCall d) {c c' : Chain}
    (hc : d.InOrder c) (h : d.execute block call c = .ok c') : d.Kept call.terms c c' := by
  cases call <;> simp only [Deployment.execute, except_bind_ok_iff, except_pure_ok_iff] at h
  case nonpayable sender call dst deadline =>
    exact Router.executeNonpayable_kept hc (fun b hb => ne_of_idle hb) h
  case payable sender call dst deadline value =>
    obtain ⟨⟨_, _⟩, h, rfl⟩ := h
    exact Router.executePayable_kept hc h
  case mint pair dst =>
    obtain ⟨⟨_, _⟩, h, rfl⟩ := h
    exact .mint hc h
  case burn pair dst =>
    obtain ⟨⟨_, _⟩, h, rfl⟩ := h
    exact .burn hc h
  case swap pair amount0Out amount1Out dst data callback =>
    exact .callSwap hc (fun c hc => executeAll_kept hkeyless callback hc) h
  case skim pair dst =>
    obtain ⟨⟨_, _⟩, h, rfl⟩ := h
    exact .skim hc h
  case sync pair =>
    obtain ⟨⟨_, _⟩, h, rfl⟩ := h
    exact .sync hc h
  case permit pair message signature =>
    obtain ⟨⟨_, _⟩, h, rfl⟩ := h
    apply Router.callPermit_kept hc _ _ h
    · exact fun digest hsigner salt => hsigner ▸ hkeyless digest signature salt
    · exact fun b hb => ne_of_idle hb
  case createPair tokenA tokenB =>
    obtain ⟨⟨_, _⟩, h, rfl⟩ := h
    exact .createPair hc h
  case setFeeTo sender feeTo =>
    apply Deployment.Kept.callFactory hc _ h
    intro s s' _ hkept
    cases hkept
  case setFeeToSetter sender feeToSetter =>
    apply Deployment.Kept.callFactory hc _ h
    intro s s' hset _
    simp only [FeeSetting.setFeeToSetter, except_bind_ok_iff, except_pure_ok_iff] at hset
    obtain ⟨-, -, rfl⟩ := hset
    rfl
  case approve sender token spender value =>
    obtain rfl := Except.ok.inj h
    exact Chain.SpentBy.approve.outsider hc fun b hb => ne_of_idle hb
  case transfer sender token dst value =>
    exact (Chain.SpentBy.transfer h).outsider hc fun b hb => ne_of_idle hb
  case transferFrom sender token src dst value =>
    exact (Chain.SpentBy.transferFrom h).outsider hc fun b hb => ne_of_idle hb
  case issue token dst value => exact (Chain.SpentBy.issue h d.router).router hc
  case redeem sender token value =>
    exact (Chain.SpentBy.redeem h).outsider hc fun b hb => ne_of_idle hb
  case deposit sender value =>
    exact (Chain.SpentBy.deposit hc.wecy sender.ne_weth h d.router).router hc
  case withdraw sender wad =>
    exact (Chain.SpentBy.withdraw hc.wecy sender.ne_weth h).outsider hc fun b hb => ne_of_idle hb
  case send sender dst value =>
    exact (Chain.SpentBy.transferNative hc.wecy sender.ne_weth h d.router).router hc

theorem executeAll_kept (hkeyless : d.Keyless) (calls : List (ExchangeCall d)) {c : Chain}
    (hc : d.InOrder c) : d.Kept (termsAll calls) c (d.executeAll block calls c) := by
  cases calls with
  | nil => exact .refl hc
  | cons call calls =>
    have hfirst : d.Kept call.terms c (match d.execute block call c with
        | .ok c' => c'
        | .error _ => c) := by
      split
      · case _ h => exact execute_kept hkeyless call hc h
      · exact .refl hc
    have hrest := executeAll_kept hkeyless calls hfirst.inOrder
    apply Deployment.Kept.trans hc (hfirst.mono _ _) (hrest.mono _ _)
    · exact fun h => (Bool.or_eq_false_iff.mp h).1
    · exact fun a h => (Bool.or_eq_false_iff.mp h).1
    · exact fun h => (Bool.or_eq_false_iff.mp h).2
    · exact fun a h => (Bool.or_eq_false_iff.mp h).2

end

end Execution

/-! ### From the deployment on -/

/-- The exchange between transactions. -/
structure Deployment.AtRest (d : Deployment) (c : Chain) : Prop where
  inOrder : d.InOrder c
  unlocked : ∀ (pool : Pool) p, c.contract pool.pair = .pair pool rfl p → p.unlocked = 1

theorem Deployment.Kept.atRest (h : d.Kept k c c') (hc : d.AtRest c) : d.AtRest c' where
  inOrder := h.inOrder
  unlocked pool _ hp' := h.unlocked hp' (hc.unlocked pool)

namespace Deployment.Genesis

variable (g : d.Genesis)

theorem contract_weth : g.chain.contract d.weth = .wecy ⟨fun _ => 0, fun _ _ => 0⟩ :=
  Function.update_self _ _ _

theorem contract_of_ne {a : Address} (ha : a ≠ d.weth) : g.chain.contract a = .token .initial :=
  Function.update_of_ne ha _ _

theorem token_eq (a : Address) : g.chain.token a = ERC20.initial := by
  by_cases ha : a = d.weth
  · rw [ha, Chain.token, contract_weth]
    exact congrArg (fun supply => ERC20.mk supply (fun _ => 0) fun _ _ => 0) g.native_weth
  · rw [Chain.token, g.contract_of_ne ha, Contract.erc20]

theorem poolAt_eq_none (a : Address) : g.chain.poolAt a = none := by
  by_cases ha : a = d.weth
  · rw [ha, Chain.poolAt, Chain.pairView, contract_weth]
    rfl
  · rw [Chain.poolAt, Chain.pairView, g.contract_of_ne ha]
    rfl

theorem no_pair {P : Prop} (hp : g.chain.contract pool.pair = .pair pool rfl p) : P := by
  cases (Chain.poolAt_of_contract hp).symm.trans (g.poolAt_eq_none pool.pair)

theorem atRest : d.AtRest g.chain where
  inOrder :=
    { guarded := fun _ _ hp => g.no_pair hp
      created := fun a pool hpool => by cases (g.poolAt_eq_none a).symm.trans hpool
      wecy := by
        intro a w hw
        by_contra ha
        cases (g.contract_of_ne ha).symm.trans hw
      unapproved := fun _ token _ => (g.token_eq token).symm ▸ ERC20.initial_unapproved _
      blank := fun salt _ => congrArg ERC20.totalSupply (g.token_eq (d.create2 salt))
      conserved := fun token => (g.token_eq token).symm ▸ ERC20.initial_conserved
      bounded := by
        intro a t ht
        by_cases ha : a = d.weth
        · subst ha
          cases g.contract_weth.symm.trans ht
        · obtain rfl := Contract.token.inj ((g.contract_of_ne ha).symm.trans ht)
          exact Nat.two_pow_pos 256
      native := g.native_lt
      registered := fun _ _ hne => absurd rfl hne }
  unlocked _ _ hp := g.no_pair hp

end Deployment.Genesis

section Runs

variable (hkeyless : d.Keyless)

include hkeyless

theorem deliver_kept (hc : d.InOrder c) (m : Block × ExchangeCall d) :
    d.Kept m.2.terms c (d.deliver c m).1 := by
  unfold Deployment.deliver
  split
  · case _ h => exact execute_kept hkeyless m.2 hc h
  · exact .refl hc

/-- What every run does, on the terms of all its transactions. -/
theorem run_kept (hc : d.AtRest c) (ms : List (Block × ExchangeCall d)) :
    d.AtRest (d.deliver.run c ms) ∧
      d.Kept (ExchangeCall.termsOfRun ms) c (d.deliver.run c ms) := by
  apply d.deliver.run_invariant (P := fun c' => d.AtRest c' ∧
    d.Kept (ExchangeCall.termsOfRun ms) c c') ms ⟨hc, .refl hc.inOrder⟩
  rintro c₁ ⟨hrest, hkept⟩ m hm
  have hstep := deliver_kept hkeyless hrest.inOrder m
  refine ⟨hstep.atRest hrest, hkept.trans hc.inOrder (hstep.mono ?_ ?_)⟩
  · exact fun hfee => hfee m hm
  · exact fun a ha => ha m hm

/-- Who has approved nobody, makes no call and signs no permit loses no tokens,
liquidity and WECY included. -/
theorem exchange_idle_holder (g : d.Genesis) (ms ms' : List (Block × ExchangeCall d))
    (a : d.Outsider) :
    let c := d.deliver.run g.chain ms
    let c' := d.deliver.run g.chain (ms ++ ms')
    (∀ m ∈ ms', m.2.involves a.address = false) →
      (∀ token, (c.token token).Unapproved a.address) →
      ∀ token, c.balanceOf token a.address ≤ c'.balanceOf token a.address ∧
        (c'.token token).Unapproved a.address := by
  intro c c' hidle hunapproved token
  have hrest : d.AtRest c := (run_kept hkeyless g.atRest ms).1
  have hc' : c' = d.deliver.run c ms' := d.deliver.run_append _ ms ms'
  have hkeeps := (run_kept hkeyless hrest ms').2.keeps a hidle token
  rw [hc']
  exact ⟨hkeeps.balance (hunapproved token), hkeeps.unapproved (hunapproved token)⟩

end Runs

/-! ### A flash swap that goes through another pair -/

def sampleGenesis : sampleDeployment.Genesis :=
  { native := Ledger.credit (fun _ => 0) ⟨5⟩ 1000000, feeToSetter := ⟨9⟩
    native_lt := by
      rw [Ledger.total_credit, Ledger.total_zero]
      decide
    native_weth := by decide }

/-- The accounts and tokens with an address below one hundred are nobody's but their own. -/
def sampleOutsider (n : Fin 100) (h : n ≠ 0) : sampleDeployment.Outsider :=
  { address := ⟨n.castLE (by norm_num)⟩
    ne_zero := by
      intro heq
      have hval : n.val = 0 := congrArg (fun a => a.index.val) heq
      exact h (Fin.ext hval)
    ne_pair := fun _ => (sampleCreate2_ne (n.isLt.trans (by norm_num))).symm
    ne_router := by
      intro heq
      have hval : n.val = 100 := congrArg (fun a => a.index.val) heq
      exact absurd n.isLt hval.not_lt
    ne_weth := by
      intro heq
      have hval : n.val = 101 := congrArg (fun a => a.index.val) heq
      omega }

def sampleTrader : sampleDeployment.Outsider := sampleOutsider 5 (by decide)

/-- Two pairs, of the tokens at two and three and of those at two and four. -/
def sampleOpening : List (Block × ExchangeCall sampleDeployment) :=
  [.issue (sampleOutsider 2 (by decide)) ⟨5⟩ 100000,
    .issue (sampleOutsider 3 (by decide)) ⟨5⟩ 100000,
    .issue (sampleOutsider 4 (by decide)) ⟨5⟩ 100000, .createPair ⟨3⟩ ⟨2⟩, .createPair ⟨2⟩ ⟨4⟩,
    .transfer sampleTrader ⟨2⟩ ⟨1955⟩ 10000, .transfer sampleTrader ⟨3⟩ ⟨1955⟩ 10000,
    .mint ⟨1955⟩ ⟨6⟩, .transfer sampleTrader ⟨2⟩ ⟨1956⟩ 10000,
    .transfer sampleTrader ⟨4⟩ ⟨1956⟩ 10000, .mint ⟨1956⟩ ⟨6⟩].map fun call =>
    (⟨1700000000, 1⟩, call)

/-- What the first pair pays out is paid for with what the other one gives. -/
def sampleArbitrage : Block × ExchangeCall sampleDeployment :=
  (⟨1700000005, 2⟩, .swap ⟨1955⟩ 0 900 ⟨5⟩ (ascii "data")
    [.transfer sampleTrader ⟨4⟩ ⟨1956⟩ 1200, .swap ⟨1956⟩ 1060 0 ⟨5⟩ [] [],
      .transfer sampleTrader ⟨2⟩ ⟨1955⟩ 1000])

theorem sampleKeyless : sampleDeployment.Keyless :=
  fun _ _ salt => (sampleDeployment.create2_ne_zero salt).symm

/-- The liquidity that was minted for the account at six. -/
theorem exchange_idle_holder_sampleArbitrage :
    let c' := sampleDeployment.deliver.run sampleGenesis.chain (sampleOpening ++ [sampleArbitrage])
    9000 ≤ c'.balanceOf ⟨1955⟩ ⟨6⟩ ∧ (c'.token ⟨1955⟩).Unapproved ⟨6⟩ := by
  have hopening := exchange_idle_holder sampleKeyless sampleGenesis [] sampleOpening
    (sampleOutsider 6 (by decide))
  have hswap := exchange_idle_holder sampleKeyless sampleGenesis sampleOpening [sampleArbitrage]
    (sampleOutsider 6 (by decide))
  dsimp only at hopening hswap ⊢
  have hunapproved := fun token => (hopening (by decide +kernel) (fun token =>
    (sampleGenesis.token_eq token).symm ▸ ERC20.initial_unapproved _) token).2
  have hbalance : (sampleDeployment.deliver.run sampleGenesis.chain sampleOpening).balanceOf ⟨1955⟩
      ⟨6⟩ = 9000 := by decide +kernel
  obtain ⟨hle, hkept⟩ := hswap (by decide +kernel) hunapproved ⟨1955⟩
  exact ⟨hbalance.symm.le.trans hle, hkept⟩

end EnergyChain.Dex
