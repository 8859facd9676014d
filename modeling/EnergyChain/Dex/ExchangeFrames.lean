import EnergyChain.Dex.Consistency
import EnergyChain.Dex.LiquidityHolders

/-!
# What a call leaves to others

A call spends the tokens of one account: of its sender, or of the pair whose
function it is. All other accounts keep what they have of every token, and all
other pairs their reserves and their supply.
-/

namespace EnergyChain.Dex

variable {spender sender src dst owner a : Address} {value : ℕ}

/-! ### Tokens -/

/-- Calls of a token that only the spender pays for. -/
structure ERC20.SpentBy (spender : Address) (t t' : ERC20) : Prop where
  keeps : ∀ a, a ≠ spender → ERC20.Keeps a t t'
  supply : t'.totalSupply = t.totalSupply

namespace ERC20.SpentBy

variable {t t' t'' : ERC20}

theorem refl (spender : Address) (t : ERC20) : SpentBy spender t t :=
  ⟨fun a _ => .refl a t, rfl⟩

theorem trans (h : SpentBy spender t t') (h' : SpentBy spender t' t'') : SpentBy spender t t'' where
  keeps a ha := (h.keeps a ha).trans (h'.keeps a ha)
  supply := h'.supply.trans h.supply

theorem approve (owner spender : Address) (value : ℕ) :
    SpentBy owner t (t.approve owner spender value) :=
  ⟨fun _ ha => .approve ha, rfl⟩

theorem transfer (h : t.transfer src dst value = .ok t') : SpentBy src t t' :=
  ⟨fun _ ha => .transfer ha h, ERC20.transfer_totalSupply h⟩

theorem transferFrom (h : t.transferFrom sender src dst value = .ok t') (spender : Address) :
    SpentBy spender t t' :=
  ⟨fun _ _ => .transferFrom h, ERC20.transferFrom_totalSupply h⟩

theorem safeTransfer (h : EnergyChain.Dex.safeTransfer t src dst value = .ok t') :
    SpentBy src t t' := transfer (safeTransfer_ok h)

theorem payOut {pool : Pool} (h : pool.payOut t dst value = .ok t') :
    SpentBy pool.pair t t' := by
  unfold Pool.payOut at h
  split_ifs at h
  · exact safeTransfer h
  · obtain rfl := Except.ok.inj h
    exact refl _ _

end ERC20.SpentBy

namespace WECY

variable {w w' : WECY} {native : ℕ}

/-- To its callers `transferFrom` of WECY is that of a standard token, or `transfer`
when they send what is their own. -/
theorem erc20_transferFrom (h : w.transferFrom sender src dst value = .ok w') :
    (src ≠ sender → (w.erc20 native).transferFrom sender src dst value = .ok (w'.erc20 native)) ∧
      (src = sender → (w.erc20 native).transfer sender dst value = .ok (w'.erc20 native)) := by
  constructor
  · intro hne
    simp only [transferFrom, except_bind_ok_iff, require_ok_iff, checkedSub_ok_iff,
      checkedAdd_ok_iff, except_pure_ok_iff] at h
    obtain ⟨-, -, w₁, hspend, _, ⟨hle, rfl⟩, _, ⟨hlt, rfl⟩, rfl⟩ := h
    have hspent : (w.erc20 native).spendAllowance sender src value = .ok (w₁.erc20 native) := by
      unfold spendAllowance at hspend
      unfold ERC20.spendAllowance
      by_cases hinfinite : w.allowance src sender = ERC20.infinite
      · rw [if_neg fun hboth => hboth.2 hinfinite] at hspend
        obtain rfl := Except.ok.inj hspend
        exact if_neg (not_not.mpr hinfinite)
      · rw [if_pos ⟨hne, hinfinite⟩] at hspend
        simp only [except_bind_ok_iff, require_ok_iff, checkedSub_ok_iff, except_pure_ok_iff]
          at hspend
        obtain ⟨-, -, _, ⟨hallowed, rfl⟩, rfl⟩ := hspend
        have hfinite : (w.erc20 native).allowance src sender ≠ ERC20.infinite := hinfinite
        have hsub : checkedSub ((w.erc20 native).allowance src sender) value =
            .ok (w.allowance src sender - value) := checkedSub_eq hallowed
        rw [if_pos hfinite, hsub]
        rfl
    rw [ERC20.transferFrom, hspent, except_ok_bind]
    exact ERC20.transfer_ok_iff.mpr ⟨hle, hlt, rfl⟩
  · rintro rfl
    exact erc20_transfer_ok_iff.mpr ⟨w', h, rfl⟩

theorem transferFrom_spentBy (h : w.transferFrom sender src dst value = .ok w') :
    ERC20.SpentBy sender (w.erc20 native) (w'.erc20 native) := by
  by_cases hsrc : src = sender
  · exact .transfer ((erc20_transferFrom h).2 hsrc)
  · exact .transferFrom ((erc20_transferFrom h).1 hsrc) sender

end WECY

/-! ### Functions of a pair -/

/-- What a function of a pair spends is the pair's own. -/
structure Pool.Spends (pool : Pool) (w w' : World) : Prop where
  liquidity : ∀ a, a ≠ pool.pair → ERC20.Keeps a w.pair.toERC20 w'.pair.toERC20
  token0 : ERC20.SpentBy pool.pair w.token0 w'.token0
  token1 : ERC20.SpentBy pool.pair w.token1 w'.token1
  factory : w'.factory = w.factory

namespace Pool.Spends

variable {pool : Pool} {w w' : World} {block : Block}

theorem mint {l : ℕ} (h : pool.mint block dst w = .ok (l, w')) : pool.Spends w w' := by
  have hleaves : ∀ a, Leaves a w.pair w'.pair := fun a => .poolMint h
  obtain ⟨-, w₁, hrun, rfl⟩ := lock_ok h
  simp only [except_bind_ok_iff, except_pure_ok_iff, Prod.mk.injEq] at hrun
  obtain ⟨_, -, _, -, _, -, _, -, -, -, _, -, _, -, _, -, -, rfl⟩ := hrun
  exact ⟨fun a _ => (hleaves a).liquidity, .refl _ _, .refl _ _, rfl⟩

theorem burn {amounts : ℕ × ℕ} (h : pool.burn block dst w = .ok (amounts, w')) :
    pool.Spends w w' := by
  have hleaves : ∀ a, a ≠ pool.pair → Leaves a w.pair w'.pair := fun a ha => .poolBurn ha h
  obtain ⟨-, w₁, hrun, rfl⟩ := lock_ok h
  simp only [except_bind_ok_iff, except_pure_ok_iff, Prod.mk.injEq] at hrun
  obtain ⟨_, -, _, -, _, -, _, -, _, -, -, -, _, -, token0, hsent₀, token1, hsent₁, _, -, _, -, -,
    rfl⟩ := hrun
  exact ⟨fun a ha => (hleaves a ha).liquidity, .safeTransfer hsent₀, .safeTransfer hsent₁, rfl⟩

theorem swap {amount0Out amount1Out : ℕ}
    (h : pool.swap block amount0Out amount1Out dst [] .ok w = .ok ((), w')) :
    pool.Spends w w' := by
  have hleaves : ∀ a, Leaves a w.pair w'.pair := by
    intro a
    apply Leaves.poolSwap _ h
    intro w₁ w₂ hcall _
    obtain rfl := Except.ok.inj hcall
    exact .refl _ _
  obtain ⟨-, w₁, hrun, rfl⟩ := lock_ok h
  simp only [except_bind_ok_iff, except_pure_ok_iff, Prod.mk.injEq, true_and] at hrun
  obtain ⟨-, -, -, -, -, -, token0, hpaid₀, token1, hpaid₁, w₂, hcall, _, -, _, -, -, -, _, -, _, -,
    _, -, _, -, _, -, -, -, p, -, rfl⟩ := hrun
  obtain rfl := Except.ok.inj hcall
  exact ⟨fun a _ => (hleaves a).liquidity, .payOut hpaid₀, .payOut hpaid₁, rfl⟩

theorem skim (h : pool.skim dst w = .ok ((), w')) : pool.Spends w w' := by
  obtain ⟨-, w₁, hrun, rfl⟩ := lock_ok h
  simp only [except_bind_ok_iff, except_pure_ok_iff, Prod.mk.injEq, true_and] at hrun
  obtain ⟨_, -, token0, hsent₀, _, -, token1, hsent₁, rfl⟩ := hrun
  exact ⟨fun a _ => .refl _ _, .safeTransfer hsent₀, .safeTransfer hsent₁, rfl⟩

theorem sync (h : pool.sync block w = .ok ((), w')) : pool.Spends w w' := by
  have hleaves : ∀ a, Leaves a w.pair w'.pair := fun a => .poolSync h
  obtain ⟨-, w₁, hrun, rfl⟩ := lock_ok h
  simp only [except_bind_ok_iff, except_pure_ok_iff, Prod.mk.injEq, true_and] at hrun
  obtain ⟨p, -, rfl⟩ := hrun
  exact ⟨fun a _ => (hleaves a).liquidity, .refl _ _, .refl _ _, rfl⟩

end Pool.Spends

/-- Only balances and allowances of a liquidity token have changed. -/
structure PairStorage.Rests (p p' : PairStorage) : Prop where
  supply : p'.totalSupply = p.totalSupply
  reserve0 : p'.reserve0 = p.reserve0
  reserve1 : p'.reserve1 = p.reserve1
  kLast : p'.kLast = p.kLast
  unlocked : p'.unlocked = p.unlocked

namespace PairStorage.Rests

variable {p p' p'' : PairStorage}

theorem refl (p : PairStorage) : p.Rests p := ⟨rfl, rfl, rfl, rfl, rfl⟩

theorem trans (h : p.Rests p') (h' : p'.Rests p'') : p.Rests p'' :=
  ⟨h'.supply.trans h.supply, h'.reserve0.trans h.reserve0, h'.reserve1.trans h.reserve1,
    h'.kLast.trans h.kLast, h'.unlocked.trans h.unlocked⟩

end PairStorage.Rests

/-! ### The chain -/

namespace Chain

variable {c c' c'' : Chain} {d : Deployment} {b token : Address} {pool : Pool}
  {p p' : PairStorage} {t : ERC20} {w : World}

theorem token_pair (h : c.contract pool.pair = .pair pool rfl p) :
    c.token pool.pair = p.toERC20 := by
  rw [Chain.token, h, Contract.erc20]

theorem poolAt_of_contract (h : c.contract pool.pair = .pair pool rfl p) :
    c.poolAt pool.pair = some pool := poolAt_eq (pairView_pair h)

theorem exists_contract (h : c.poolAt a = some pool) :
    a = pool.pair ∧ ∃ p, c.contract pool.pair = .pair pool rfl p := by
  obtain ⟨view, hview, rfl⟩ := Option.map_eq_some_iff.mp h
  obtain ⟨p, heq, hp, -⟩ := exists_pair hview
  exact ⟨heq, p, hp⟩

/-- The chains differ in the contract at one address, and in native balances that no
other contract shows. -/
structure OnlyAt (a : Address) (c c' : Chain) : Prop where
  contract : ∀ b, b ≠ a → c'.contract b = c.contract b
  native : ∀ b, b ≠ a → ∀ w, c.contract b = .wecy w → c'.native b = c.native b
  total : Ledger.total c'.native = Ledger.total c.native
  factory : c'.factory = c.factory

namespace OnlyAt

theorem token_of_ne (h : OnlyAt a c c') (hb : b ≠ a) : c'.token b = c.token b := by
  unfold Chain.token
  rw [h.contract b hb]
  cases hk : c.contract b with
  | wecy w => rw [h.native b hb w hk]
  | token t => rfl
  | pair pool deployed p => rfl

theorem poolAt_of_ne (h : OnlyAt a c c') (hb : b ≠ a) : c'.poolAt b = c.poolAt b := by
  unfold Chain.poolAt pairView
  rw [h.contract b hb]

theorem setContract (c : Chain) (k : Contract a) : OnlyAt a c (c.setContract a k) where
  contract _ hb := Function.update_of_ne hb _ _
  native _ _ _ _ := rfl
  total := rfl
  factory := rfl

end OnlyAt

@[simp] theorem contract_setContract {k : Contract a} : (c.setContract a k).contract a = k :=
  Function.update_self _ _ _

theorem token_setContract {k : Contract a} :
    (c.setContract a k).token a = k.erc20 (c.native a) := by
  rw [Chain.token, contract_setContract]
  rfl

theorem token_setToken (h : t.totalSupply = (c.token a).totalSupply) :
    (c.setToken a t).token a = t := by
  rw [setToken, token_setContract]
  unfold Chain.token at h
  cases hk : c.contract a with
  | token t₀ => rfl
  | pair pool deployed p => rfl
  | wecy w =>
    rw [hk] at h
    exact congrArg (fun supply => ERC20.mk supply t.balanceOf t.allowance) h.symm

theorem setToken_self (c : Chain) (a : Address) : c.setToken a (c.token a) = c := by
  have hsame : (c.contract a).withToken (c.token a) = c.contract a := by
    unfold Chain.token
    cases c.contract a <;> rfl
  rw [setToken, hsame, setContract, Function.update_eq_self]

theorem withToken_withToken (k : Contract a) (t t' : ERC20) :
    (k.withToken t).withToken t' = k.withToken t' := by
  cases k <;> rfl

theorem write_write {w' : World} : (c.write pool w).write pool w' = c.write pool w' := by
  have hlt := pool.token0_lt_token1.ne
  have hcontract : ((c.write pool w).write pool w').contract = (c.write pool w').contract := by
    funext a
    unfold write setToken setContract
    dsimp only
    by_cases h₁ : a = pool.token1
    · subst h₁
      simp only [Function.update_self, Function.update_of_ne hlt.symm,
        Function.update_of_ne pool.pair_ne_token1.symm, withToken_withToken]
    by_cases h₀ : a = pool.token0
    · subst h₀
      simp only [Function.update_self, Function.update_of_ne hlt,
        Function.update_of_ne pool.pair_ne_token0.symm, withToken_withToken]
    by_cases hp : a = pool.pair
    · subst hp
      simp only [Function.update_of_ne h₁, Function.update_of_ne h₀, Function.update_self]
    · simp only [Function.update_of_ne h₁, Function.update_of_ne h₀, Function.update_of_ne hp]
  exact congrArg (fun contract => Chain.mk c.native contract c.factory) hcontract

theorem write_withPair :
    c.write pool ((c.world pool p).withPair p') =
      c.setContract pool.pair (.pair pool rfl p') := by
  have honly := OnlyAt.setContract c (.pair pool rfl p' : Contract pool.pair)
  unfold write
  dsimp only [World.withPair, world]
  rw [← honly.token_of_ne pool.pair_ne_token0.symm, setToken_self,
    ← honly.token_of_ne pool.pair_ne_token1.symm, setToken_self]

/-! ### Calls that one account pays for -/

/-- What a call leaves: all accounts but the spender keep what they have of every token,
the pairs other than the spender rest, and nothing comes into being. -/
structure SpentBy (d : Deployment) (spender : Address) (c c' : Chain) : Prop where
  keeps : ∀ a, a ≠ spender → ∀ token, ERC20.Keeps a (c.token token) (c'.token token)
  rests : ∀ (pool : Pool) p, pool.pair ≠ spender → c.contract pool.pair = .pair pool rfl p →
    ∃ p', c'.contract pool.pair = .pair pool rfl p' ∧ p.Rests p'
  bounded : ∀ a t', c'.contract a = .token t' → ∃ t, c.contract a = .token t ∧
    (t.totalSupply < uint256Size → t'.totalSupply < uint256Size)
  blank : ∀ salt, c.poolAt (d.create2 salt) = none →
    (c'.token (d.create2 salt)).totalSupply = (c.token (d.create2 salt)).totalSupply
  poolAt : c'.poolAt = c.poolAt
  wecy : ∀ a w, c'.contract a = .wecy w → ∃ w, c.contract a = .wecy w
  native : Ledger.total c'.native = Ledger.total c.native
  factory : c'.factory = c.factory

namespace SpentBy

theorem refl (d : Deployment) (spender : Address) (c : Chain) : SpentBy d spender c c where
  keeps a _ _ := .refl a _
  rests _ p _ h := ⟨p, h, .refl p⟩
  bounded _ t h := ⟨t, h, id⟩
  blank _ _ := rfl
  poolAt := rfl
  wecy _ w h := ⟨w, h⟩
  native := rfl
  factory := rfl

theorem trans (h : SpentBy d spender c c') (h' : SpentBy d spender c' c'') :
    SpentBy d spender c c'' where
  keeps a ha token := (h.keeps a ha token).trans (h'.keeps a ha token)
  rests pool p hne hp := by
    obtain ⟨p₁, hp₁, hrests⟩ := h.rests pool p hne hp
    obtain ⟨p₂, hp₂, hrests'⟩ := h'.rests pool p₁ hne hp₁
    exact ⟨p₂, hp₂, hrests.trans hrests'⟩
  bounded a t'' ht := by
    obtain ⟨t', ht', hlt'⟩ := h'.bounded a t'' ht
    obtain ⟨t, ht, hlt⟩ := h.bounded a t' ht'
    exact ⟨t, ht, hlt' ∘ hlt⟩
  blank salt hnone := (h'.blank salt (h.poolAt ▸ hnone)).trans (h.blank salt hnone)
  poolAt := h'.poolAt.trans h.poolAt
  wecy a w hw := by
    obtain ⟨w₁, hw₁⟩ := h'.wecy a w hw
    exact h.wecy a w₁ hw₁
  native := h'.native.trans h.native
  factory := h'.factory.trans h.factory

theorem of_onlyAt (h : OnlyAt b c c')
    (hkeeps : ∀ a, a ≠ spender → ERC20.Keeps a (c.token b) (c'.token b))
    (hrests : ∀ (pool : Pool) p, b = pool.pair → pool.pair ≠ spender →
      c.contract pool.pair = .pair pool rfl p →
      ∃ p', c'.contract pool.pair = .pair pool rfl p' ∧ p.Rests p')
    (hbounded : ∀ t', c'.contract b = .token t' → ∃ t, c.contract b = .token t ∧
      (t.totalSupply < uint256Size → t'.totalSupply < uint256Size))
    (hblank : ∀ salt, b = d.create2 salt → c.poolAt b = none →
      (c'.token b).totalSupply = (c.token b).totalSupply)
    (hpool : c'.poolAt b = c.poolAt b)
    (hwecy : ∀ w, c'.contract b = .wecy w → ∃ w, c.contract b = .wecy w) :
    SpentBy d spender c c' where
  keeps a ha token := by
    by_cases htoken : token = b
    · rw [htoken]
      exact hkeeps a ha
    · rw [h.token_of_ne htoken]
      exact .refl a _
  rests pool p hne hp := by
    by_cases hb : b = pool.pair
    · exact hrests pool p hb hne hp
    · exact ⟨p, (h.contract _ (Ne.symm hb)).trans hp, .refl p⟩
  bounded a t' ht := by
    by_cases ha : a = b
    · subst ha
      exact hbounded t' ht
    · exact ⟨t', (h.contract a ha).symm.trans ht, id⟩
  blank salt hnone := by
    by_cases hsalt : d.create2 salt = b
    · subst hsalt
      exact hblank salt rfl hnone
    · rw [h.token_of_ne hsalt]
  poolAt := by
    funext a
    by_cases ha : a = b
    · rw [ha, hpool]
    · exact h.poolAt_of_ne ha
  wecy a w hw := by
    by_cases ha : a = b
    · subst ha
      exact hwecy w hw
    · rw [h.contract a ha] at hw
      exact ⟨w, hw⟩
  native := h.total
  factory := h.factory

theorem setToken (h : ERC20.SpentBy spender (c.token b) t) :
    SpentBy d spender c (c.setToken b t) := by
  have htoken : (c.setToken b t).token b = t := token_setToken h.supply
  apply of_onlyAt (OnlyAt.setContract c ((c.contract b).withToken t))
  · intro a ha
    exact htoken.symm ▸ h.keeps a ha
  · rintro pool p rfl - hp
    rw [token_pair hp] at h
    refine ⟨p.withToken t, ?_, h.supply, rfl, rfl, rfl, rfl⟩
    rw [contract_setContract, hp]
    rfl
  · intro t' ht'
    rw [contract_setContract] at ht'
    have hsupply := h.supply
    unfold Chain.token at hsupply
    cases hk : c.contract b with
    | token t₀ =>
      rw [hk] at ht' hsupply
      obtain rfl := Contract.token.inj ht'
      exact ⟨t₀, rfl, fun hlt => hsupply.symm ▸ hlt⟩
    | wecy w₀ =>
      rw [hk] at ht'
      cases ht'
    | pair pool deployed p =>
      rw [hk] at ht'
      cases ht'
  · intro _ _ _
    exact (congrArg ERC20.totalSupply htoken).trans h.supply
  · exact congrArg (Option.map PairView.pool) (congrFun pairView_setToken b)
  · intro w hw
    rw [contract_setContract] at hw
    cases hk : c.contract b with
    | wecy w₀ => exact ⟨w₀, rfl⟩
    | token t₀ =>
      rw [hk] at hw
      cases hw
    | pair pool deployed p =>
      rw [hk] at hw
      cases hw

theorem setPair (hp : c.contract pool.pair = .pair pool rfl p)
    (hkeeps : ∀ a, a ≠ spender → ERC20.Keeps a p.toERC20 p'.toERC20)
    (hrests : pool.pair ≠ spender → p.Rests p') :
    SpentBy d spender c (c.setContract pool.pair (.pair pool rfl p')) := by
  have hpool := poolAt_of_contract hp
  apply of_onlyAt (OnlyAt.setContract c (.pair pool rfl p' : Contract pool.pair))
  · intro a ha
    rw [token_pair hp, token_setContract]
    exact hkeeps a ha
  · intro pool' p₀ hsame hne hp₀
    have hpool' := poolAt_of_contract hp₀
    rw [← hsame, hpool] at hpool'
    obtain rfl := Option.some.inj hpool'
    rw [hp] at hp₀
    obtain ⟨-, rfl⟩ := Contract.pair.inj hp₀
    exact ⟨p', contract_setContract, hrests hne⟩
  · intro t' ht'
    rw [contract_setContract] at ht'
    cases ht'
  · intro _ _ hnone
    rw [hpool] at hnone
    cases hnone
  · rw [hpool]
    exact poolAt_of_contract contract_setContract
  · intro w hw
    rw [contract_setContract] at hw
    cases hw

theorem write (hp : c.contract pool.pair = .pair pool rfl p)
    (h : pool.Spends (c.world pool p) w) : SpentBy d pool.pair c (c.write pool w) := by
  have hpair : SpentBy d pool.pair c (c.setContract pool.pair (.pair pool rfl w.pair)) :=
    setPair hp h.liquidity fun hne => absurd rfl hne
  have honly := OnlyAt.setContract c (.pair pool rfl w.pair : Contract pool.pair)
  have honly₀ := OnlyAt.setContract (c.setContract pool.pair (.pair pool rfl w.pair))
    (((c.setContract pool.pair (.pair pool rfl w.pair)).contract pool.token0).withToken w.token0)
  apply hpair.trans
  apply SpentBy.trans (setToken _) (setToken _)
  · rw [honly.token_of_ne pool.pair_ne_token0.symm]
    exact h.token0
  · rw [Chain.setToken, honly₀.token_of_ne pool.token0_lt_token1.ne',
      honly.token_of_ne pool.pair_ne_token1.symm]
    exact h.token1

/-! ### Token calls -/

theorem setWECY {wecy wecy' : WECY} (hw : c.contract b = .wecy wecy)
    (h : ERC20.SpentBy spender (wecy.erc20 (c.native b)) (wecy'.erc20 (c.native b))) :
    SpentBy d spender c (c.setContract b (.wecy wecy')) := by
  have htoken : c.token b = wecy.erc20 (c.native b) := by
    rw [Chain.token, hw]
    rfl
  have hset := setToken (d := d) (htoken ▸ h)
  rwa [Chain.setToken, hw] at hset

theorem transfer (h : c.transfer token sender dst value = .ok c') : SpentBy d sender c c' := by
  unfold Chain.transfer at h
  split at h
  · case _ wecy hw =>
    simp only [except_bind_ok_iff, except_pure_ok_iff] at h
    obtain ⟨wecy', hsent, rfl⟩ := h
    exact setWECY hw (WECY.transferFrom_spentBy hsent)
  · simp only [except_bind_ok_iff, except_pure_ok_iff] at h
    obtain ⟨t, hsent, rfl⟩ := h
    exact setToken (.transfer hsent)

theorem transferFrom (h : c.transferFrom token sender src dst value = .ok c') :
    SpentBy d sender c c' := by
  unfold Chain.transferFrom at h
  split at h
  · case _ wecy hw =>
    simp only [except_bind_ok_iff, except_pure_ok_iff] at h
    obtain ⟨wecy', hsent, rfl⟩ := h
    exact setWECY hw (WECY.transferFrom_spentBy hsent)
  · simp only [except_bind_ok_iff, except_pure_ok_iff] at h
    obtain ⟨t, hsent, rfl⟩ := h
    exact setToken (.transferFrom hsent sender)

/-! ### Native payments and WECY -/

/-- A native payment that WECY takes no part in. -/
theorem pay (hwecy : ∀ a w, c.contract a = .wecy w → a = d.weth) (hsrc : src ≠ d.weth)
    (hdst : dst ≠ d.weth) (h : c.pay src dst value = .ok c') (spender : Address) :
    SpentBy d spender c c' := by
  unfold Chain.pay at h
  split_ifs at h with hle
  obtain rfl := Except.ok.inj h
  have hsame : Ledger.move c.native src dst value d.weth = c.native d.weth :=
    Ledger.move_of_ne hsrc.symm hdst.symm
  have htoken : ({ c with native := Ledger.move c.native src dst value } : Chain).token d.weth =
      c.token d.weth := by
    unfold Chain.token
    dsimp only
    rw [hsame]
  apply of_onlyAt (b := d.weth)
  · refine ⟨fun _ _ => rfl, ?_, Ledger.total_move hle, rfl⟩
    intro b hb w hw
    exact absurd (hwecy b w hw) hb
  · intro a _
    rw [htoken]
    exact .refl a _
  · intro pool p _ _ hp
    exact ⟨p, hp, .refl p⟩
  · exact fun t ht => ⟨t, ht, id⟩
  · intro salt hsalt
    exact absurd hsalt.symm (d.create2_ne_weth salt)
  · rfl
  · exact fun w hw => ⟨w, hw⟩

theorem custody {wecy wecy' : WECY} {native : Address → ℕ} (hw : c.contract d.weth = .wecy wecy)
    (hwecy : ∀ a w, c.contract a = .wecy w → a = d.weth)
    (htotal : Ledger.total native = Ledger.total c.native)
    (hkeeps : ∀ a, a ≠ spender →
      ERC20.Keeps a (wecy.erc20 (c.native d.weth)) (wecy'.erc20 (native d.weth))) :
    SpentBy d spender c { c.setContract d.weth (.wecy wecy') with native } := by
  have honly := OnlyAt.setContract c (.wecy wecy' : Contract d.weth)
  have hview : ({ c.setContract d.weth (.wecy wecy') with native } : Chain).contract d.weth =
      .wecy wecy' := contract_setContract
  have hnone : ∀ {c : Chain} {wecy : WECY}, c.contract d.weth = .wecy wecy →
      c.poolAt d.weth = none := by
    intro c wecy hw
    rw [Chain.poolAt, pairView, hw]
    rfl
  apply of_onlyAt (b := d.weth)
  · refine ⟨honly.contract, ?_, htotal, rfl⟩
    intro b hb w hw'
    exact absurd (hwecy b w hw') hb
  · intro a ha
    rw [Chain.token, Chain.token, hw, hview]
    exact hkeeps a ha
  · intro pool p heq _ hp
    have hpool := poolAt_of_contract hp
    rw [← heq, hnone hw] at hpool
    cases hpool
  · intro t' ht'
    cases hview.symm.trans ht'
  · intro salt hsalt
    exact absurd hsalt.symm (d.create2_ne_weth salt)
  · rw [hnone hw]
    exact hnone hview
  · exact fun _ _ => ⟨wecy, hw⟩

theorem deposit (hwecy : ∀ a w, c.contract a = .wecy w → a = d.weth) (hsender : sender ≠ d.weth)
    (h : d.deposit sender value c = .ok c') (spender : Address) : SpentBy d spender c c' := by
  simp only [Deployment.deposit, Chain.pay, except_bind_ok_iff] at h
  obtain ⟨c₁, hpay, h⟩ := h
  split_ifs at hpay with hle
  obtain rfl := Except.ok.inj hpay
  split at h
  · case _ wecy hw =>
    simp only [except_bind_ok_iff, WECY.deposit_ok_iff, except_pure_ok_iff] at h
    obtain ⟨_, ⟨-, rfl⟩, rfl⟩ := h
    apply custody (c := c) hw hwecy (Ledger.total_move hle)
    intro a _
    refine ⟨?_, id, fun _ => Ledger.le_credit wecy.balanceOf sender value a⟩
    intro hconserved
    change Ledger.total (Ledger.credit wecy.balanceOf sender value) =
      Ledger.move c.native sender d.weth value d.weth
    rw [Ledger.total_credit, Ledger.move_target hsender]
    exact congrArg (· + value) hconserved
  · cases h

theorem withdraw (hwecy : ∀ a w, c.contract a = .wecy w → a = d.weth) (hsender : sender ≠ d.weth)
    (h : d.withdraw sender value c = .ok c') : SpentBy d sender c c' := by
  unfold Deployment.withdraw at h
  split at h
  · case _ wecy hw =>
    simp only [except_bind_ok_iff, WECY.withdraw_ok_iff] at h
    obtain ⟨_, ⟨hle, rfl⟩, h⟩ := h
    have hpaid : (c.setContract d.weth (.wecy { wecy with
        balanceOf := Ledger.debit wecy.balanceOf sender value })).pay d.weth sender value =
        .ok c' := by
      unfold Deployment.transferNative at h
      split_ifs at h
      · simp only [except_bind_ok_iff, except_pure_ok_iff] at h
        obtain ⟨_, hpay, -, -, rfl⟩ := h
        exact hpay
      · exact h
    unfold Chain.pay at hpaid
    split_ifs at hpaid with hnative
    obtain rfl := Except.ok.inj hpaid
    apply custody (c := c) hw hwecy (Ledger.total_move hnative)
    intro a ha
    refine ⟨?_, id, fun _ => (Ledger.debit_of_ne ha).ge⟩
    intro hconserved
    have htotal := Ledger.total_debit hle
    change Ledger.total (Ledger.debit wecy.balanceOf sender value) =
      Ledger.move c.native d.weth sender value d.weth
    rw [Ledger.move_source hsender.symm]
    have hsum : Ledger.total wecy.balanceOf = c.native d.weth := hconserved
    omega
  · cases h

theorem transferNative (hwecy : ∀ a w, c.contract a = .wecy w → a = d.weth)
    (hsender : sender ≠ d.weth) (h : d.transferNative sender dst value c = .ok c')
    (spender : Address) : SpentBy d spender c c' := by
  unfold Deployment.transferNative at h
  split_ifs at h with hrouter hweth
  · simp only [except_bind_ok_iff, assert_ok_iff] at h
    obtain ⟨_, -, -, hfrom, -⟩ := h
    exact absurd hfrom hsender
  · exact deposit hwecy hsender h spender
  · exact pay hwecy hsender hweth h spender

end SpentBy
end Chain
end EnergyChain.Dex
