import EnergyChain.Dex.ExchangeEffects

/-!
# The exchange between transactions

What holds of the chain whenever no call is under way, and what the library reads
of a chain in order. New contracts and new entries of the registry keep it so.
-/

namespace EnergyChain.Dex.Chain

open Library

def reserve (c : Chain) (pair token : Address) : ℕ :=
  match c.pairView pair with
  | some view => view.reserve token
  | none => 0

/-- What holds of the exchange between transactions: the registry is in order, no
pair is locked, reserves have 112 bits, and the balances of a token add up to a
`uint256`. -/
structure Consistent (c : Chain) : Prop where
  registered : c.Registered
  unlocked : ∀ a view, c.pairView a = some view → view.unlocked = 1
  bounded : ∀ a view, c.pairView a = some view →
    view.reserve0 < 2 ^ 112 ∧ view.reserve1 < 2 ^ 112
  standard : ∀ token, Ledger.total (c.balanceOf token) < uint256Size

variable {c c' : Chain} {a pair : Address} {view : PairView} {pool : Pool} {t : ERC20}
  {p : PairStorage}

theorem reserve_eq (h : c.pairView pair = some view) (token : Address) :
    c.reserve pair token = view.reserve token := by
  rw [reserve, h]

theorem reserve_congr (h : c'.pairView pair = c.pairView pair) (token : Address) :
    c'.reserve pair token = c.reserve pair token := by
  rw [reserve, reserve, h]

/-! ### The library on the chain -/

theorem getReserves_eq (c : Chain) (pair : Address) : c.getReserves pair =
    match c.pairView pair with
    | some view => .ok (view.reserve0, view.reserve1)
    | none => .error (.error []) := by
  unfold Chain.getReserves pairView Contract.pairView
  cases c.contract pair <;> rfl

theorem getReserves_ok {tokenA tokenB : Address} {rA rB : ℕ} (hc : c.Registered)
    (h : Library.getReserves c tokenA tokenB = .ok (rA, rB)) :
    ∃ view token0 token1, c.pairView (pairFor c tokenA tokenB) = some view ∧
      view.pool.Trades tokenA tokenB ∧ sortTokens tokenA tokenB = .ok (token0, token1) ∧
      view.reserve tokenA = rA ∧ view.reserve tokenB = rB := by
  simp only [Library.getReserves, except_bind_ok_iff, except_pure_ok_iff] at h
  obtain ⟨⟨token0, token1⟩, hsort, ⟨r₀, r₁⟩, hreserves, hordered⟩ := h
  rw [getReserves_eq] at hreserves
  split at hreserves
  · case _ view hview =>
    obtain ⟨rfl, rfl⟩ := Prod.mk.inj (Except.ok.inj hreserves)
    obtain ⟨p, hpair, -⟩ := exists_pair hview
    have htrades := hc.trades hpair (hpair ▸ poolAt_eq hview)
    refine ⟨view, token0, token1, hview, htrades, hsort, ?_⟩
    obtain ⟨-, ⟨hA, hB, hA'⟩ | ⟨hA, hB, hA'⟩⟩ := sortTokens_trades htrades hsort
    · rw [inOrder, if_pos hA, Prod.mk.injEq] at hordered
      rw [hA', hB, PairView.reserve_token0, PairView.reserve_token1]
      exact hordered
    · rw [inOrder, if_neg hA, Prod.mk.injEq] at hordered
      rw [hA', hB, PairView.reserve_token0, PairView.reserve_token1]
      exact hordered
  · cases hreserves

theorem getReserves_congr {tokenA tokenB : Address} (hfactory : c'.factory = c.factory)
    (hview : c'.pairView (pairFor c tokenA tokenB) = c.pairView (pairFor c tokenA tokenB)) :
    Library.getReserves c' tokenA tokenB = Library.getReserves c tokenA tokenB := by
  have hpair : pairFor c' tokenA tokenB = pairFor c tokenA tokenB := by
    rw [pairFor, pairFor, hfactory]
  rw [Library.getReserves, Library.getReserves, hpair, getReserves_eq, getReserves_eq, hview]

theorem Moved.consistent {token src dst : Address} {v : ℕ} (h : Moved token src dst v c c')
    (hview : c'.pairView = c.pairView) (hc : c.Consistent) : c'.Consistent where
  registered := by
    intro tokenA tokenB hne
    rw [h.factory] at hne ⊢
    rw [poolAt, hview]
    exact hc.registered tokenA tokenB hne
  unlocked := hview ▸ hc.unlocked
  bounded := hview ▸ hc.bounded
  standard b := by
    rw [h.total]
    exact hc.standard b

/-! ### New contracts and entries -/

theorem getPair_register (f : Factory) {token0 token1 : Address} (hne : token0 ≠ token1)
    (pair tokenA tokenB : Address) : (f.register token0 token1 pair).getPair tokenA tokenB =
      if tokenA = token0 ∧ tokenB = token1 ∨ tokenA = token1 ∧ tokenB = token0 then pair
      else f.getPair tokenA tokenB := by
  simp only [Factory.register]
  by_cases h₁ : tokenA = token1
  · subst h₁
    by_cases h₀ : tokenB = token0
    · subst h₀
      simp
    · simp [h₀, hne.symm]
  · by_cases h₀ : tokenA = token0
    · subst h₀
      by_cases hb : tokenB = token1
      · subst hb
        simp [Function.update_of_ne hne]
      · simp [hb, hne]
    · simp [h₁, h₀]

theorem initial_consistent (feeToSetter : Address) : (initial feeToSetter).Consistent where
  registered _ _ hne := absurd rfl hne
  unlocked := nofun
  bounded := nofun
  standard _ := by
    rw [show (initial feeToSetter).balanceOf _ = fun _ => 0 from rfl, Ledger.total_zero]
    norm_num [uint256Size]

theorem Consistent.setToken (h : c.Consistent) (hnone : c.pairView a = none)
    (htotal : Ledger.total t.balanceOf < uint256Size) :
    (c.setContract a (.token t)).Consistent := by
  have hview : (c.setContract a (.token t)).pairView = c.pairView := by
    rw [pairView_setContract]
    exact Function.update_eq_self_iff.mpr hnone.symm
  constructor
  · intro tokenA tokenB hne
    obtain ⟨pool, hpool, htrades⟩ := h.registered tokenA tokenB hne
    exact ⟨pool, by rw [← hpool, poolAt, poolAt, hview]; rfl, htrades⟩
  · rw [hview]
    exact h.unlocked
  · rw [hview]
    exact h.bounded
  · intro token
    rw [balanceOf_setContract]
    by_cases ht : token = a
    · rw [ht, Function.update_self]
      exact htotal
    · rw [Function.update_of_ne ht]
      exact h.standard token

theorem pairView_setPair :
    (c.setContract pool.pair (.pair pool rfl p)).pairView = Function.update c.pairView pool.pair
      (some ⟨pool, p.reserve0, p.reserve1, p.unlocked⟩) := by
  rw [pairView_setContract]
  rfl

theorem Registered.setPair (h : c.Registered) (hnone : c.pairView pool.pair = none) :
    (c.setContract pool.pair (.pair pool rfl p)).Registered := by
  intro tokenA tokenB hne
  obtain ⟨pool', hpool', htrades⟩ := h tokenA tokenB hne
  refine ⟨pool', ?_, htrades⟩
  have hother : c.factory.getPair tokenA tokenB ≠ pool.pair := by
    intro heq
    rw [heq, poolAt, hnone] at hpool'
    cases hpool'
  rw [← hpool', poolAt, poolAt, pairView_setPair]
  exact congrArg _ (Function.update_of_ne hother _ _)

theorem Consistent.setPair (h : c.Consistent) (pool : Pool) (hnone : c.pairView pool.pair = none)
    (hopen : p.unlocked = 1) (hbounded : p.reserve0 < 2 ^ 112 ∧ p.reserve1 < 2 ^ 112)
    (htotal : Ledger.total p.balanceOf < uint256Size) :
    (c.setContract pool.pair (.pair pool rfl p)).Consistent := by
  have hold : ∀ b view', (c.setContract pool.pair (.pair pool rfl p)).pairView b = some view' →
      c.pairView b = some view' ∨ view' = ⟨pool, p.reserve0, p.reserve1, p.unlocked⟩ := by
    intro b view' hb
    rw [pairView_setPair] at hb
    by_cases hne : b = pool.pair
    · rw [hne, Function.update_self] at hb
      exact Or.inr (Option.some.inj hb).symm
    · rw [Function.update_of_ne hne] at hb
      exact Or.inl hb
  constructor
  · exact h.registered.setPair hnone
  · intro b view' hb
    rcases hold b view' hb with hb | rfl
    · exact h.unlocked b view' hb
    · exact hopen
  · intro b view' hb
    rcases hold b view' hb with hb | rfl
    · exact h.bounded b view' hb
    · exact hbounded
  · intro token
    rw [balanceOf_setContract]
    by_cases ht : token = pool.pair
    · rw [ht, Function.update_self]
      exact htotal
    · rw [Function.update_of_ne ht]
      exact h.standard token

theorem Registered.register (h : c.Registered) (hpool : c.poolAt pool.pair = some pool) :
    Registered { c with factory := c.factory.register pool.token0 pool.token1 pool.pair } := by
  intro tokenA tokenB hne
  dsimp only at hne ⊢
  rw [getPair_register c.factory pool.token0_lt_token1.ne] at hne ⊢
  split_ifs at hne ⊢ with hnew
  · refine ⟨pool, hpool, ?_⟩
    rcases hnew with ⟨rfl, rfl⟩ | ⟨rfl, rfl⟩
    · exact Or.inl ⟨rfl, rfl⟩
    · exact Or.inr ⟨rfl, rfl⟩
  · exact h tokenA tokenB hne

theorem Consistent.register (h : c.Consistent) (pool : Pool)
    (hpool : c.poolAt pool.pair = some pool) :
    Consistent { c with factory := c.factory.register pool.token0 pool.token1 pool.pair } :=
  ⟨h.registered.register hpool, h.unlocked, h.bounded, h.standard⟩

section Factory

variable {d : Deployment} {token0 token1 tokenA tokenB : Address}

theorem newPool_eq (h : d.newPool token0 token1 = some pool) :
    pool.token0 = token0 ∧ pool.token1 = token1 ∧ pool.pair = d.create2 (d.salt token0 token1) := by
  dsimp only [Deployment.newPool] at h
  split_ifs at h
  obtain rfl := Option.some.inj h
  exact ⟨rfl, rfl, rfl⟩

theorem deploy_ok (h : d.deploy token0 token1 c = .ok (pair, c')) :
    ∃ pool : Pool, (pool.token0 = token0 ∧ pool.token1 = token1 ∧
        pool.pair = d.create2 (d.salt token0 token1)) ∧
      pair = pool.pair ∧ c.pairView pool.pair = none ∧ c' = c.setContract pool.pair
        (.pair pool rfl (.deployed d.keccak256 d.chainid pool.pair)) := by
  unfold Deployment.deploy at h
  split at h
  · cases h
  · case _ pool hpool =>
    refine ⟨pool, newPool_eq hpool, ?_⟩
    split at h
    · cases h
    · case _ hnone =>
      obtain ⟨rfl, rfl⟩ := Prod.mk.inj (Except.ok.inj h)
      refine ⟨rfl, ?_, rfl⟩
      unfold pairView Contract.pairView
      split
      · case _ hpair => exact absurd hpair (hnone _ _ _)
      · rfl

/-- What a successful `createPair` has done: a pair of the two tokens is deployed
where none was, and registered where nothing was. -/
theorem createPair_ok (h : d.createPair tokenA tokenB c = .ok (pair, c')) :
    ∃ pool : Pool, pool.Trades tokenA tokenB ∧ pair = pool.pair ∧
      pool.pair = d.create2 (d.salt pool.token0 pool.token1) ∧ c.pairView pool.pair = none ∧
      c.factory.getPair pool.token0 pool.token1 = .zero ∧
      c' = { c.setContract pool.pair
          (.pair pool rfl (.deployed d.keccak256 d.chainid pool.pair)) with
        factory := c.factory.register pool.token0 pool.token1 pool.pair } := by
  simp only [Deployment.createPair, except_bind_ok_iff, require_ok_iff, except_pure_ok_iff,
    Prod.mk.injEq] at h
  obtain ⟨-, hne, -, -, -, hnew, ⟨_, c₁⟩, hdeploy, rfl, rfl⟩ := h
  obtain ⟨pool, ⟨h₀, h₁, hpair⟩, hsame, hnone, rfl⟩ := deploy_ok hdeploy
  rw [← h₀, ← h₁] at hnew hpair ⊢
  refine ⟨pool, ?_, hsame, hpair, hnone, hnew, ?_⟩
  · rw [Pool.Trades, h₀, h₁]
    split_ifs
    · exact Or.inl ⟨rfl, rfl⟩
    · exact Or.inr ⟨rfl, rfl⟩
  · rw [hsame]
    rfl

end Factory

end EnergyChain.Dex.Chain
