import EnergyChain.Dex.ExchangeCalls
import EnergyChain.Dex.ExchangeFrames
import EnergyChain.Dex.RouterFunds

/-!
# The invariant of the exchange

What holds of all contracts at any time, also while a pair is locked by a swap whose
recipient makes calls of its own. A call that one account pays for keeps it, and so
does a function of a pair; both are described by what they do to every pair.
-/

namespace EnergyChain.Dex

variable {d : Deployment} {c c' c'' : Chain} {pool : Pool} {w w' : World} {p p' : PairStorage}
  {spender : Address} {fixed : Prop} {k : d.Terms}

/-- The state of a pair at any time: while it is locked it may have paid out what the
reserves still count. -/
structure Guarded (pool : Pool) (w : World) : Prop where
  sound : Sound w.pair
  last : LastBacked w.pair
  covered : w.pair.unlocked = 1 →
    w.pair.reserve0 ≤ pool.balance0 w ∧ w.pair.reserve1 ≤ pool.balance1 w

theorem Settled.guarded (h : Settled pool w) : Guarded pool w :=
  ⟨h.sound, h.last, fun _ => ⟨h.covered0, h.covered1⟩⟩

/-- What stays outside a pair keeps its state, locked or not. -/
theorem Guarded.outside (h : Guarded pool w) (hout : Outside pool w w')
    (hu₀ : w.token0.Unapproved pool.pair) (hu₁ : w.token1.Unapproved pool.pair) :
    Guarded pool w' where
  sound := hout.sound h.sound
  last := hout.last h.last
  covered hopen := by
    obtain ⟨hcovered₀, hcovered₁⟩ := h.covered (hout.unlocked ▸ hopen)
    constructor
    · exact hout.reserve0 ▸ hcovered₀.trans (hout.token0.balance hu₀)
    · exact hout.reserve1 ▸ hcovered₁.trans (hout.token1.balance hu₁)

/-- What holds of the exchange at any time. -/
structure Deployment.InOrder (d : Deployment) (c : Chain) : Prop where
  guarded : ∀ (pool : Pool) p, c.contract pool.pair = .pair pool rfl p →
    Guarded pool (c.world pool p)
  created : ∀ a pool, c.poolAt a = some pool → ∃ salt, a = d.create2 salt
  wecy : ∀ a w, c.contract a = .wecy w → a = d.weth
  unapproved : ∀ salt token, token ≠ d.create2 salt →
    (c.token token).Unapproved (d.create2 salt)
  blank : ∀ salt, c.poolAt (d.create2 salt) = none →
    (c.token (d.create2 salt)).totalSupply = 0
  conserved : ∀ token, (c.token token).Conserved
  bounded : ∀ a t, c.contract a = .token t → t.totalSupply < uint256Size
  native : Ledger.total c.native < uint256Size
  registered : c.Registered

namespace Deployment.InOrder

variable (h : d.InOrder c)

include h

theorem exists_salt (hp : c.contract pool.pair = .pair pool rfl p) :
    ∃ salt, pool.pair = d.create2 salt := h.created _ pool (Chain.poolAt_of_contract hp)

theorem pair_unapproved (hp : c.contract pool.pair = .pair pool rfl p) {token : Address}
    (hne : token ≠ pool.pair) : (c.token token).Unapproved pool.pair := by
  obtain ⟨salt, hsalt⟩ := h.exists_salt hp
  rw [hsalt] at hne ⊢
  exact h.unapproved salt token hne

theorem settled (hp : c.contract pool.pair = .pair pool rfl p) (hopen : p.unlocked = 1) :
    Settled pool (c.world pool p) := by
  have hguarded := h.guarded pool p hp
  obtain ⟨hcovered₀, hcovered₁⟩ := hguarded.covered hopen
  exact ⟨hguarded.sound, hguarded.last, hcovered₀, hcovered₁,
    h.pair_unapproved hp pool.pair_ne_token0.symm, h.pair_unapproved hp pool.pair_ne_token1.symm⟩

theorem total_lt (token : Address) : Ledger.total (c.balanceOf token) < uint256Size := by
  have hconserved : Ledger.total (c.balanceOf token) = (c.token token).totalSupply :=
    h.conserved token
  rw [hconserved]
  unfold Chain.token Contract.erc20
  split
  · case _ t ht => exact h.bounded token t ht
  · exact (Ledger.le_total c.native token).trans_lt h.native
  · case _ pool deployed p hp =>
    subst deployed
    have hlt := (h.guarded pool p hp).sound.totalSupply_lt
    exact hlt.trans (by norm_num [uint256Size])

theorem consistent (hopen : ∀ a view, c.pairView a = some view → view.unlocked = 1) :
    c.Consistent where
  registered := h.registered
  unlocked := hopen
  bounded a view hview := by
    obtain ⟨p, -, hp, h₀, h₁, -⟩ := Chain.exists_pair hview
    have hsound := (h.guarded view.pool p hp).sound
    exact ⟨h₀ ▸ hsound.bounded0, h₁ ▸ hsound.bounded1⟩
  standard := h.total_lt

end Deployment.InOrder

/-! ### What calls do to the pairs -/

/-- What any call does to a pair. Without a change of the fee setting, and with the fee
off, it never lowers the value of a share. -/
structure PairKept (fixed : Prop) (pool : Pool) (w w' : World) : Prop where
  outside : w.pair.unlocked ≠ 1 → Outside pool w w'
  unlocked : w.pair.unlocked = 1 → w'.pair.unlocked = 1
  zeroBalance : w.pair.balanceOf .zero ≤ w'.pair.balanceOf .zero
  notDiluted : fixed → w.factory.feeTo = .zero → 0 < w.pair.totalSupply →
    w.pair.fund.NotDiluted w'.pair.fund

theorem Outside.pairKept (h : Outside pool w w') (hsound : Sound w.pair) :
    PairKept fixed pool w w' where
  outside _ := h
  unlocked hopen := h.unlocked.trans hopen
  zeroBalance := h.liquidity.balance hsound.unapproved
  notDiluted _ _ _ := h.fund_eq ▸ .refl _

theorem Effect.pairKept (h : Effect pool w w') (hopen : w.pair.unlocked = 1)
    (hopen' : w'.pair.unlocked = 1) : PairKept fixed pool w w' where
  outside hlocked := absurd hopen hlocked
  unlocked _ := hopen'
  zeroBalance := h.zeroBalance
  notDiluted _ := h.notDiluted

/-- Liquidity that is there stays, by the minimum that the zero address has. -/
theorem supply_pos_of_zeroBalance (hs : Sound w.pair) (hs' : Sound w'.pair)
    (hle : w.pair.balanceOf .zero ≤ w'.pair.balanceOf .zero) (hpos : 0 < w.pair.totalSupply) :
    0 < w'.pair.totalSupply := by
  have hmin := hs.minimum.resolve_left hpos.ne'
  have hbalance := ERC20.balanceOf_le_totalSupply hs'.conserved .zero
  have hminimum : 0 < minimumLiquidity := by decide
  omega

theorem PairKept.trans {w'' : World} (h : PairKept fixed pool w w')
    (h' : PairKept fixed pool w' w'') (hs : Sound w.pair) (hs' : Sound w'.pair)
    (hfee : fixed → w'.factory.feeTo = w.factory.feeTo) : PairKept fixed pool w w'' where
  outside hlocked := by
    have hout := h.outside hlocked
    exact hout.trans (h'.outside (hout.unlocked ▸ hlocked))
  unlocked hopen := h'.unlocked (h.unlocked hopen)
  zeroBalance := h.zeroBalance.trans h'.zeroBalance
  notDiluted hfixed hfree hpos := by
    have hpos' := supply_pos_of_zeroBalance hs hs' h.zeroBalance hpos
    have hfirst := h.notDiluted hfixed hfree hpos
    exact hfirst.trans (h'.notDiluted hfixed ((hfee hfixed).symm ▸ hfree) hpos') hpos'

/-- What any call of the exchange does. -/
structure Deployment.Kept (d : Deployment) (k : d.Terms) (c c' : Chain) : Prop where
  inOrder : d.InOrder c'
  pairs : ∀ (pool : Pool) p, c.contract pool.pair = .pair pool rfl p →
    ∃ p', c'.contract pool.pair = .pair pool rfl p' ∧
      PairKept k.feeKept pool (c.world pool p) (c'.world pool p')
  fresh : ∀ (pool : Pool) p', c'.contract pool.pair = .pair pool rfl p' →
    c.poolAt pool.pair = none → p'.unlocked = 1
  fee : k.feeKept → c'.factory.feeTo = c.factory.feeTo
  keeps : ∀ a, k.idle a → ∀ token, ERC20.Keeps a.address (c.token token) (c'.token token)

theorem Chain.pool_unique {pool' : Pool} (hp : c.contract pool.pair = .pair pool rfl p)
    (hp' : c.contract pool'.pair = .pair pool' rfl p') (h : pool'.pair = pool.pair) :
    pool' = pool := by
  have hpool := poolAt_of_contract hp'
  rw [h, poolAt_of_contract hp] at hpool
  exact (Option.some.inj hpool).symm

namespace Deployment.Kept

theorem refl (hc : d.InOrder c) : d.Kept k c c where
  inOrder := hc
  pairs pool p hp := ⟨p, hp, (Outside.refl pool _).pairKept (hc.guarded pool p hp).sound⟩
  fresh pool p hp hnone := by
    rw [Chain.poolAt_of_contract hp] at hnone
    cases hnone
  fee _ := rfl
  keeps a _ _ := .refl a.address _

theorem unlocked (h : d.Kept k c c') (hp' : c'.contract pool.pair = .pair pool rfl p')
    (hopen : ∀ p, c.contract pool.pair = .pair pool rfl p → p.unlocked = 1) : p'.unlocked = 1 := by
  cases hpool : c.poolAt pool.pair with
  | none => exact h.fresh pool p' hp' hpool
  | some pool' =>
    obtain ⟨heq, p, hp⟩ := Chain.exists_contract hpool
    obtain ⟨p₁, hp₁, hkept⟩ := h.pairs pool' p hp
    obtain rfl := Chain.pool_unique hp' hp₁ heq.symm
    obtain ⟨-, rfl⟩ := Contract.pair.inj (hp₁.symm.trans hp')
    exact hkept.unlocked (hopen p hp)

theorem trans (hc : d.InOrder c) (h : d.Kept k c c') (h' : d.Kept k c' c'') :
    d.Kept k c c'' where
  inOrder := h'.inOrder
  pairs pool p hp := by
    obtain ⟨p₁, hp₁, hkept⟩ := h.pairs pool p hp
    obtain ⟨p₂, hp₂, hkept'⟩ := h'.pairs pool p₁ hp₁
    refine ⟨p₂, hp₂, hkept.trans hkept' (hc.guarded pool p hp).sound
      (h.inOrder.guarded pool p₁ hp₁).sound h.fee⟩
  fresh pool p'' hp'' hnone := h'.unlocked hp'' fun p' hp' => h.fresh pool p' hp' hnone
  fee hkept := (h'.fee hkept).trans (h.fee hkept)
  keeps a ha token := (h.keeps a ha token).trans (h'.keeps a ha token)

theorem andThen (h : d.Kept k c c') (hc : d.InOrder c)
    (h' : d.InOrder c' → d.Kept k c' c'') : d.Kept k c c'' := h.trans hc (h' h.inOrder)

end Deployment.Kept

/-! ### Calls that one account pays for -/

namespace Chain.SpentBy

variable (h : SpentBy d spender c c')

include h

theorem outside (hzero : spender ≠ .zero) (hp : c.contract pool.pair = .pair pool rfl p)
    (hne : pool.pair ≠ spender) :
    ∃ p', c'.contract pool.pair = .pair pool rfl p' ∧
      Outside pool (c.world pool p) (c'.world pool p') := by
  obtain ⟨p', hp', hrests⟩ := h.rests pool p hne hp
  have hliquidity := h.keeps .zero hzero.symm pool.pair
  rw [token_pair hp, token_pair hp'] at hliquidity
  exact ⟨p', hp', hrests.supply, hrests.reserve0, hrests.reserve1, hrests.kLast, hrests.unlocked,
    hliquidity, h.keeps _ hne _, h.keeps _ hne _⟩

theorem exists_pair (hp' : c'.contract pool.pair = .pair pool rfl p') :
    ∃ p, c.contract pool.pair = .pair pool rfl p := by
  have hpool := poolAt_of_contract hp'
  rw [h.poolAt] at hpool
  exact (exists_contract hpool).2

theorem not_fresh {P : Prop} (hp' : c'.contract pool.pair = .pair pool rfl p')
    (hnone : c.poolAt pool.pair = none) : P := by
  rw [← h.poolAt, poolAt_of_contract hp'] at hnone
  cases hnone

/-- The exchange stays in order, if the spender does when it is a pair. -/
theorem inOrder (hc : d.InOrder c) (hzero : spender ≠ .zero)
    (hguarded : ∀ (pool : Pool) p', pool.pair = spender →
      c'.contract pool.pair = .pair pool rfl p' → Guarded pool (c'.world pool p'))
    (hunapproved : ∀ salt token, spender = d.create2 salt → token ≠ spender →
      (c'.token token).Unapproved spender) : d.InOrder c' where
  guarded pool p' hp' := by
    by_cases hne : pool.pair = spender
    · exact hguarded pool p' hne hp'
    · obtain ⟨p, hp⟩ := h.exists_pair hp'
      obtain ⟨p₁, hp₁, hout⟩ := h.outside hzero hp hne
      rw [hp'] at hp₁
      obtain ⟨-, rfl⟩ := Contract.pair.inj hp₁
      exact (hc.guarded pool p hp).outside hout (hc.pair_unapproved hp pool.pair_ne_token0.symm)
        (hc.pair_unapproved hp pool.pair_ne_token1.symm)
  created := h.poolAt ▸ hc.created
  wecy a w hw := by
    obtain ⟨w₁, hw₁⟩ := h.wecy a w hw
    exact hc.wecy a w₁ hw₁
  unapproved salt token hne := by
    by_cases hspender : d.create2 salt = spender
    · rw [hspender] at hne ⊢
      exact hunapproved salt token hspender.symm hne
    · exact (h.keeps _ hspender token).unapproved (hc.unapproved salt token hne)
  blank salt hnone := by
    rw [h.poolAt] at hnone
    rw [h.blank salt hnone, hc.blank salt hnone]
  conserved token := (h.keeps .zero hzero.symm token).conserved (hc.conserved token)
  bounded a t' ht' := by
    obtain ⟨t, ht, hlt⟩ := h.bounded a t' ht'
    exact hlt (hc.bounded a t ht)
  native := h.native.symm ▸ hc.native
  registered := registered_congr h.factory h.poolAt hc.registered

/-- The calls of an account that is no pair. -/
theorem kept (hc : d.InOrder c) (hzero : spender ≠ .zero)
    (hpair : ∀ salt, spender ≠ d.create2 salt) (hidle : ∀ a, k.idle a → a.address ≠ spender) :
    d.Kept k c c' where
  inOrder := by
    apply h.inOrder hc hzero
    · rintro pool p' rfl hp'
      obtain ⟨p, hp⟩ := h.exists_pair hp'
      obtain ⟨salt, hsalt⟩ := hc.exists_salt hp
      exact absurd hsalt (hpair salt)
    · intro salt token hspender
      exact absurd hspender (hpair salt)
  pairs pool p hp := by
    obtain ⟨salt, hsalt⟩ := hc.exists_salt hp
    obtain ⟨p', hp', hout⟩ := h.outside hzero hp (hsalt ▸ (hpair salt).symm)
    exact ⟨p', hp', hout.pairKept (hc.guarded pool p hp).sound⟩
  fresh pool p' hp' hnone := h.not_fresh hp' hnone
  fee _ := congrArg (fun f : Factory => f.feeTo) h.factory
  keeps a ha := h.keeps _ (hidle a ha)

end Chain.SpentBy

/-! ### Functions of a pair -/

theorem Chain.world_write (h : pool.Spends (c.world pool p) w) :
    (c.write pool w).contract pool.pair = .pair pool rfl w.pair ∧
      (c.write pool w).world pool w.pair = w := by
  have honly := OnlyAt.setContract c (.pair pool rfl w.pair : Contract pool.pair)
  set c₁ := c.setContract pool.pair (.pair pool rfl w.pair) with hc₁
  have honly₀ := OnlyAt.setContract c₁ ((c₁.contract pool.token0).withToken w.token0)
  set c₂ := c₁.setToken pool.token0 w.token0 with hc₂
  have honly₁ := OnlyAt.setContract c₂ ((c₂.contract pool.token1).withToken w.token1)
  have hlt := pool.token0_lt_token1.ne
  have hread₀ : c₂.token pool.token0 = w.token0 := by
    apply token_setToken
    rw [honly.token_of_ne pool.pair_ne_token0.symm]
    exact h.token0.supply
  have hread₁ : (c₂.setToken pool.token1 w.token1).token pool.token1 = w.token1 := by
    apply token_setToken
    rw [hc₂, setToken, honly₀.token_of_ne hlt.symm, honly.token_of_ne pool.pair_ne_token1.symm]
    exact h.token1.supply
  have hread₀' : (c₂.setToken pool.token1 w.token1).token pool.token0 = w.token0 := by
    rw [setToken, honly₁.token_of_ne hlt, hread₀]
  constructor
  · change (c₂.setToken pool.token1 w.token1).contract pool.pair = _
    rw [setToken, honly₁.contract _ pool.pair_ne_token1, hc₂, setToken,
      honly₀.contract _ pool.pair_ne_token0]
    exact contract_setContract
  · change World.mk w.pair ((c₂.setToken pool.token1 w.token1).token pool.token0)
      ((c₂.setToken pool.token1 w.token1).token pool.token1) c.factory.toFeeSetting = w
    rw [hread₀', hread₁]
    exact congrArg (World.mk w.pair w.token0 w.token1) h.factory.symm

theorem Chain.token_write {token : Address} (hpair : token ≠ pool.pair)
    (h₀ : token ≠ pool.token0) (h₁ : token ≠ pool.token1) :
    (c.write pool w).token token = c.token token := by
  unfold write
  dsimp only
  rw [setToken, setToken, (OnlyAt.setContract _ _).token_of_ne h₁,
    (OnlyAt.setContract _ _).token_of_ne h₀, (OnlyAt.setContract _ _).token_of_ne hpair]

theorem Deployment.InOrder.write (hc : d.InOrder c) (hp : c.contract pool.pair = .pair pool rfl p)
    (h : pool.Spends (c.world pool p) w) (hguarded : Guarded pool w)
    (hu₀ : w.token0.Unapproved pool.pair) (hu₁ : w.token1.Unapproved pool.pair) :
    d.InOrder (c.write pool w) := by
  have hspent : Chain.SpentBy d pool.pair c (c.write pool w) := .write hp h
  obtain ⟨hread, hworld⟩ := Chain.world_write h
  have htoken0 : (c.write pool w).token pool.token0 = w.token0 := congrArg World.token0 hworld
  have htoken1 : (c.write pool w).token pool.token1 = w.token1 := congrArg World.token1 hworld
  apply hspent.inOrder hc pool.pair_ne_zero
  · intro pool' p' heq hp'
    obtain rfl := Chain.pool_unique hread hp' heq
    obtain ⟨-, rfl⟩ := Contract.pair.inj (hread.symm.trans hp')
    exact hworld.symm ▸ hguarded
  · intro salt token _ hne
    by_cases h₀ : token = pool.token0
    · rw [h₀, htoken0]
      exact hu₀
    by_cases h₁ : token = pool.token1
    · rw [h₁, htoken1]
      exact hu₁
    · rw [Chain.token_write hne h₀ h₁]
      exact hc.pair_unapproved hp hne

theorem Deployment.Kept.write (hc : d.InOrder c) (hp : c.contract pool.pair = .pair pool rfl p)
    (hopen : p.unlocked = 1) (h : pool.Spends (c.world pool p) w)
    (heffect : Effect pool (c.world pool p) w ∧ w.pair.unlocked = 1) :
    d.Kept k c (c.write pool w) where
  inOrder := hc.write hp h heffect.1.settled.guarded heffect.1.settled.unapproved0
    heffect.1.settled.unapproved1
  pairs pool' p' hp' := by
    obtain ⟨hread, hworld⟩ := Chain.world_write h
    by_cases hne : pool'.pair = pool.pair
    · obtain rfl := Chain.pool_unique hp hp' hne
      obtain ⟨-, rfl⟩ := Contract.pair.inj (hp.symm.trans hp')
      refine ⟨w.pair, hread, ?_⟩
      rw [hworld]
      exact heffect.1.pairKept hopen heffect.2
    · have hspent : Chain.SpentBy d pool.pair c (c.write pool w) := .write hp h
      obtain ⟨p₁, hp₁, hout⟩ := hspent.outside pool.pair_ne_zero hp' hne
      exact ⟨p₁, hp₁, hout.pairKept (hc.guarded pool' p' hp').sound⟩
  fresh _ _ hp' hnone := (Chain.SpentBy.write (d := d) hp h).not_fresh hp' hnone
  fee _ := rfl
  keeps a _ := by
    obtain ⟨salt, hsalt⟩ := hc.exists_salt hp
    exact (Chain.SpentBy.write (d := d) hp h).keeps _ (hsalt ▸ a.ne_pair salt)

namespace Deployment.Kept

variable {block : Block} {pair dst : Address}

theorem callPair {α : Type} {r : α} {f : Pool → World → Except Revert (α × World)}
    (hc : d.InOrder c) (h : c.callPair pair f = .ok (r, c'))
    (hf : ∀ pool w w', Settled pool w → f pool w = .ok (r, w') →
      pool.Spends w w' ∧ Effect pool w w' ∧ w'.pair.unlocked = 1)
    (hopen : ∀ pool w w', f pool w = .ok (r, w') → w.pair.unlocked = 1) : d.Kept k c c' := by
  obtain ⟨pool, p, w, -, hp, hrun, rfl⟩ := Chain.callPair_ok h
  have hunlocked : p.unlocked = 1 := hopen pool _ w hrun
  obtain ⟨hspends, heffect⟩ := hf pool _ w (hc.settled hp hunlocked) hrun
  exact write hc hp hunlocked hspends heffect

theorem mint {l : ℕ} (hc : d.InOrder c)
    (h : (c.callPair pair fun pool => pool.mint block dst) = .ok (l, c')) : d.Kept k c c' := by
  apply callPair hc h
  · exact fun pool w w' hw hrun => ⟨.mint hrun, mint_effect hw hrun⟩
  · exact fun pool w w' hrun => (lock_ok hrun).1

theorem burn {amounts : ℕ × ℕ} (hc : d.InOrder c)
    (h : (c.callPair pair fun pool => pool.burn block dst) = .ok (amounts, c')) :
    d.Kept k c c' := by
  apply callPair hc h
  · exact fun pool w w' hw hrun => ⟨.burn hrun, burn_effect hw hrun⟩
  · exact fun pool w w' hrun => (lock_ok hrun).1

theorem swap {amount0Out amount1Out : ℕ} (hc : d.InOrder c)
    (h : (c.callPair pair fun pool => pool.swap block amount0Out amount1Out dst [] .ok) =
      .ok ((), c')) : d.Kept k c c' := by
  apply callPair hc h
  · intro pool w w' hw hrun
    refine ⟨.swap hrun, swap_effect hw ?_ hrun⟩
    intro w₁ w₂ _ hcall
    obtain rfl := Except.ok.inj hcall
    exact .refl pool _
  · exact fun pool w w' hrun => (lock_ok hrun).1

theorem skim (hc : d.InOrder c)
    (h : (c.callPair pair fun pool => pool.skim dst) = .ok ((), c')) : d.Kept k c c' := by
  apply callPair hc h
  · exact fun pool w w' hw hrun => ⟨.skim hrun, skim_effect hw hrun⟩
  · exact fun pool w w' hrun => (lock_ok hrun).1

theorem sync (hc : d.InOrder c)
    (h : (c.callPair pair fun pool => pool.sync block) = .ok ((), c')) : d.Kept k c c' := by
  apply callPair hc h
  · exact fun pool w w' hw hrun => ⟨.sync hrun, sync_effect hw hrun⟩
  · exact fun pool w w' hrun => (lock_ok hrun).1

/-! ### The factory -/

theorem setFactory {f : Factory} (hc : d.InOrder c)
    (hregistered : Chain.Registered { c with factory := f })
    (hfee : k.feeKept → f.feeTo = c.factory.feeTo) : d.Kept k c { c with factory := f } where
  inOrder :=
    { guarded := fun pool p hp =>
        have h := hc.guarded pool p hp
        ⟨h.sound, h.last, h.covered⟩
      created := hc.created
      wecy := hc.wecy
      unapproved := hc.unapproved
      blank := hc.blank
      conserved := hc.conserved
      bounded := hc.bounded
      native := hc.native
      registered := hregistered }
  pairs pool p hp := by
    refine ⟨p, hp, Outside.pairKept ?_ (hc.guarded pool p hp).sound⟩
    exact ⟨rfl, rfl, rfl, rfl, rfl, .refl _ _, .refl _ _, .refl _ _⟩
  fresh pool p hp hnone := by
    rw [Chain.poolAt_of_contract (c := c) hp] at hnone
    cases hnone
  fee := hfee
  keeps a _ _ := .refl a.address _

theorem blank_keeps (hc : d.InOrder c) {salt : Bytes} (hnone : c.poolAt (d.create2 salt) = none)
    (a : Address) : ERC20.Keeps a (c.token (d.create2 salt)) ERC20.initial := by
  have hsupply := hc.blank salt hnone
  have hbalance := ERC20.balanceOf_le_totalSupply (hc.conserved (d.create2 salt)) a
  refine ⟨fun _ => ERC20.initial_conserved, fun _ => ERC20.initial_unapproved a, fun _ => ?_⟩
  omega

section Deploy

variable {salt : Bytes}

theorem deploy_keeps (hc : d.InOrder c) (hsalt : pool.pair = d.create2 salt)
    (hnone : c.poolAt pool.pair = none) (a token : Address) :
    ERC20.Keeps a (c.token token)
      ((c.setPair pool (.deployed d.keccak256 d.chainid pool.pair)).token token) := by
  unfold Chain.setPair
  by_cases htoken : token = pool.pair
  · rw [htoken, Chain.token_pair Chain.contract_setContract, hsalt]
    exact blank_keeps hc (hsalt ▸ hnone) a
  · rw [(Chain.OnlyAt.setContract c _).token_of_ne htoken]
    exact .refl a _

theorem deploy_outside (hc : d.InOrder c) (hsalt : pool.pair = d.create2 salt)
    (hnone : c.poolAt pool.pair = none) {pool' : Pool}
    (hp : c.contract pool'.pair = .pair pool' rfl p) :
    (c.setPair pool (.deployed d.keccak256 d.chainid pool.pair)).contract pool'.pair =
        .pair pool' rfl p ∧
      Outside pool' (c.world pool' p)
        ((c.setPair pool (.deployed d.keccak256 d.chainid pool.pair)).world pool' p) := by
  have hne : pool'.pair ≠ pool.pair := by
    intro heq
    rw [← heq, Chain.poolAt_of_contract hp] at hnone
    cases hnone
  have hkeeps := deploy_keeps hc hsalt hnone
  exact ⟨((Chain.OnlyAt.setContract c _).contract _ hne).trans hp, rfl, rfl, rfl, rfl, rfl,
    .refl _ _, hkeeps _ _, hkeeps _ _⟩

theorem deploy_unapproved (hc : d.InOrder c) (hsalt : pool.pair = d.create2 salt)
    (hnone : c.poolAt pool.pair = none) {salt' : Bytes} {token : Address}
    (hne : token ≠ d.create2 salt') :
    ((c.setPair pool (.deployed d.keccak256 d.chainid pool.pair)).token token).Unapproved
      (d.create2 salt') :=
  (deploy_keeps hc hsalt hnone _ token).unapproved (hc.unapproved salt' token hne)

/-- The new pair begins as the constructor leaves it, and the others go on. -/
theorem deploy_guarded (hc : d.InOrder c) (hsalt : pool.pair = d.create2 salt)
    (hnone : c.poolAt pool.pair = none) {pool' : Pool} {p' : PairStorage}
    (hp' : (c.setPair pool (.deployed d.keccak256 d.chainid pool.pair)).contract pool'.pair =
      .pair pool' rfl p') :
    Guarded pool' ((c.setPair pool (.deployed d.keccak256 d.chainid pool.pair)).world pool' p') := by
  set c₁ := c.setPair pool (.deployed d.keccak256 d.chainid pool.pair) with hc₁
  have hnew : c₁.contract pool.pair = .pair pool rfl (.deployed d.keccak256 d.chainid pool.pair) :=
    Chain.contract_setContract
  by_cases hne : pool'.pair = pool.pair
  · obtain rfl := Chain.pool_unique hnew hp' hne
    obtain ⟨-, rfl⟩ := Contract.pair.inj (hnew.symm.trans hp')
    have hunapproved : ∀ token, token ≠ pool'.pair → (c₁.token token).Unapproved pool'.pair := by
      intro token hne
      rw [hsalt] at hne ⊢
      exact hsalt ▸ deploy_unapproved hc hsalt hnone hne
    exact (deployed_settled d.keccak256 d.chainid
      ⟨c₁.token pool'.token0, hunapproved _ pool'.pair_ne_token0.symm⟩
      ⟨c₁.token pool'.token1, hunapproved _ pool'.pair_ne_token1.symm⟩
      c.factory.toFeeSetting).guarded
  · have honly : Chain.OnlyAt pool.pair c c₁ := .setContract c _
    have hp : c.contract pool'.pair = .pair pool' rfl p' := (honly.contract _ hne).symm.trans hp'
    exact (hc.guarded pool' p' hp).outside (deploy_outside hc hsalt hnone hp).2
      (hc.pair_unapproved hp pool'.pair_ne_token0.symm)
      (hc.pair_unapproved hp pool'.pair_ne_token1.symm)

theorem deploy_inOrder (hc : d.InOrder c) (hsalt : pool.pair = d.create2 salt)
    (hnone : c.pairView pool.pair = none) :
    d.InOrder (c.setPair pool (.deployed d.keccak256 d.chainid pool.pair)) := by
  have hpool : c.poolAt pool.pair = none := congrArg (Option.map PairView.pool) hnone
  have hregistered := hc.registered.setPair (p := .deployed d.keccak256 d.chainid pool.pair) hnone
  have honly : Chain.OnlyAt pool.pair c
      (c.setPair pool (.deployed d.keccak256 d.chainid pool.pair)) := .setContract c _
  have hnew : (c.setPair pool (.deployed d.keccak256 d.chainid pool.pair)).contract pool.pair =
      .pair pool rfl (.deployed d.keccak256 d.chainid pool.pair) := Chain.contract_setContract
  constructor
  case guarded => exact fun pool' p' hp' => deploy_guarded hc hsalt hpool hp'
  case created =>
    intro a pool' hpool'
    by_cases ha : a = pool.pair
    · exact ⟨_, ha.trans hsalt⟩
    · exact hc.created a pool' ((honly.poolAt_of_ne ha).symm.trans hpool')
  case wecy =>
    intro a w hw
    by_cases ha : a = pool.pair
    · subst ha
      cases hnew.symm.trans hw
    · exact hc.wecy a w ((honly.contract a ha).symm.trans hw)
  case unapproved => exact fun salt' token hne => deploy_unapproved hc hsalt hpool hne
  case blank =>
    intro salt hsalt'
    by_cases hsame : d.create2 salt = pool.pair
    · rw [hsame] at hsalt'
      cases (Chain.poolAt_of_contract hnew).symm.trans hsalt'
    · exact (congrArg ERC20.totalSupply (honly.token_of_ne hsame)).trans
        (hc.blank salt ((honly.poolAt_of_ne hsame).symm.trans hsalt'))
  case conserved =>
    exact fun token => (deploy_keeps hc hsalt hpool .zero token).conserved (hc.conserved token)
  case bounded =>
    intro a t ht
    by_cases ha : a = pool.pair
    · subst ha
      cases hnew.symm.trans ht
    · exact hc.bounded a t ((honly.contract a ha).symm.trans ht)
  case native => exact hc.native
  case registered => exact hregistered

theorem deploy (hc : d.InOrder c) (hsalt : pool.pair = d.create2 salt)
    (hnone : c.pairView pool.pair = none) :
    d.Kept k c (c.setPair pool (.deployed d.keccak256 d.chainid pool.pair)) where
  inOrder := deploy_inOrder hc hsalt hnone
  pairs pool' p hp := by
    have hpool : c.poolAt pool.pair = none := congrArg (Option.map PairView.pool) hnone
    obtain ⟨hp₁, hout⟩ := deploy_outside hc hsalt hpool hp
    exact ⟨p, hp₁, hout.pairKept (hc.guarded pool' p hp).sound⟩
  fresh pool' p' hp' hnone' := by
    by_cases hne : pool'.pair = pool.pair
    · obtain rfl := Chain.pool_unique Chain.contract_setContract hp' hne
      obtain ⟨-, rfl⟩ := Contract.pair.inj (Chain.contract_setContract.symm.trans hp')
      rfl
    · rw [Chain.setPair, (Chain.OnlyAt.setContract c _).contract _ hne] at hp'
      rw [Chain.poolAt_of_contract hp'] at hnone'
      cases hnone'
  fee _ := rfl
  keeps a _ := deploy_keeps hc hsalt (congrArg (Option.map PairView.pool) hnone) a.address

end Deploy

theorem createPair {tokenA tokenB : Address} (hc : d.InOrder c)
    (h : d.createPair tokenA tokenB c = .ok (pair, c')) : d.Kept k c c' := by
  obtain ⟨pool, -, rfl, hsalt, hnone, -, rfl⟩ := Chain.createPair_ok h
  apply (deploy hc hsalt hnone).andThen hc
  intro hc₁
  apply setFactory hc₁
  · exact hc₁.registered.register (Chain.poolAt_of_contract Chain.contract_setContract)
  · exact fun _ => rfl

end Deployment.Kept
end EnergyChain.Dex
