import EnergyChain.Dex.Consistency
import EnergyChain.Foundations.MessageRuns
import Mathlib.Data.Sym.Sym2

/-!
# The registry of pairs

The factory keeps its pairs in a mapping, which it writes in both orders of the
tokens and reads in one, and in a list. Over any calls of `createPair` the two agree
with the accepted calls: one pair for each unordered pair of tokens, in the order of
their creation.
-/

namespace EnergyChain.Dex

open Library

/-- A call of `createPair`. -/
structure PairRequest where
  sender : Address
  tokenA : Address
  tokenB : Address

/-- The order of the two tokens does not matter. -/
def PairRequest.tokens (m : PairRequest) : Sym2 Address := s(m.tokenA, m.tokenB)

/-- Calls of `createPair`; one that reverts leaves the chain as it is. -/
def Deployment.createPairs (d : Deployment) : Handler Chain PairRequest Revert Address := fun c m =>
  match d.createPair m.tokenA m.tokenB c with
  | .ok (pair, c') => (c', .ok pair)
  | .error e => (c, .error e)

variable {d : Deployment} {c c' : Chain} {m : PairRequest} {created : List PairRequest}
  {tokenA tokenB pair : Address} {pool : Pool}

theorem createPairs_accepts (h : d.createPairs.Accepts c m) :
    ∃ pair, d.createPair m.tokenA m.tokenB c = .ok (pair, (d.createPairs c m).1) := by
  obtain ⟨r, hr⟩ := h
  unfold Deployment.createPairs at hr ⊢
  split at hr
  · case _ pair c' hcreate => exact ⟨pair, hcreate⟩
  · cases hr

theorem createPairs_rejects (h : ¬ d.createPairs.Accepts c m) : (d.createPairs c m).1 = c := by
  unfold Handler.Accepts Deployment.createPairs at h
  unfold Deployment.createPairs
  split at h
  · exact absurd ⟨_, rfl⟩ h
  · rfl

theorem Pool.trades_iff : pool.Trades tokenA tokenB ↔
    s(tokenA, tokenB) = s(pool.token0, pool.token1) := by
  rw [Pool.Trades, Sym2.eq_iff]
  constructor
  · rintro (⟨rfl, rfl⟩ | ⟨rfl, rfl⟩)
    · exact Or.inl ⟨rfl, rfl⟩
    · exact Or.inr ⟨rfl, rfl⟩
  · rintro (⟨rfl, rfl⟩ | ⟨rfl, rfl⟩)
    · exact Or.inl ⟨rfl, rfl⟩
    · exact Or.inr ⟨rfl, rfl⟩

/-! ### The invariant -/

/-- The registry holds the pairs of the calls, one for each pair of tokens. -/
structure Registry (c : Chain) (created : List PairRequest) : Prop where
  symmetric : ∀ tokenA tokenB, c.factory.getPair tokenA tokenB = c.factory.getPair tokenB tokenA
  found : ∀ tokenA tokenB, c.factory.getPair tokenA tokenB ≠ .zero ↔
    s(tokenA, tokenB) ∈ created.map PairRequest.tokens
  distinct : (created.map PairRequest.tokens).Nodup
  listed : c.factory.allPairs = created.map fun m => c.factory.getPair m.tokenA m.tokenB
  nodup : c.factory.allPairs.Nodup
  registered : c.Registered

namespace Registry

theorem deployed (feeToSetter : Address) :
    Registry { c with factory := .deployed feeToSetter } [] where
  symmetric _ _ := rfl
  found _ _ := by simp [Factory.deployed]
  distinct := List.nodup_nil
  listed := rfl
  nodup := List.nodup_nil
  registered _ _ hne := absurd rfl hne

theorem poolAt_of_mem (h : Registry c created) (hmem : pair ∈ c.factory.allPairs) :
    ∃ pool, c.poolAt pair = some pool := by
  rw [h.listed, List.mem_map] at hmem
  obtain ⟨m, hm, rfl⟩ := hmem
  have hne := (h.found m.tokenA m.tokenB).mpr (List.mem_map_of_mem hm)
  obtain ⟨pool, hpool, -⟩ := h.registered m.tokenA m.tokenB hne
  exact ⟨pool, hpool⟩

theorem getPair_register (f : Factory) (pool : Pool) (tokenA tokenB : Address) :
    (f.register pool.token0 pool.token1 pool.pair).getPair tokenA tokenB =
      if s(tokenA, tokenB) = s(pool.token0, pool.token1) then pool.pair
      else f.getPair tokenA tokenB := by
  rw [Chain.getPair_register f pool.token0_lt_token1.ne]
  exact if_congr Sym2.eq_iff.symm rfl rfl

/-- A successful call adds its pair to all of them. -/
theorem step (h : Registry c created)
    (hrun : d.createPair m.tokenA m.tokenB c = .ok (pair, c')) : Registry c' (created ++ [m]) := by
  obtain ⟨pool, htrades, -, -, hnone, hnew, rfl⟩ := Chain.createPair_ok hrun
  have htokens : m.tokens = s(pool.token0, pool.token1) := Pool.trades_iff.mp htrades
  have hfresh : m.tokens ∉ created.map PairRequest.tokens := by
    rw [htokens]
    exact fun hmem => (h.found pool.token0 pool.token1).mpr hmem hnew
  have hget : ∀ a b, (c.factory.register pool.token0 pool.token1 pool.pair).getPair a b =
      if s(a, b) = m.tokens then pool.pair else c.factory.getPair a b := by
    intro a b
    rw [getPair_register, htokens]
  constructor
  · intro a b
    dsimp only
    rw [hget, hget, Sym2.eq_swap, h.symmetric a b]
  · intro a b
    dsimp only
    rw [hget, List.map_append, List.mem_append, List.map_singleton, List.mem_singleton]
    split_ifs with hab
    · exact iff_of_true pool.pair_ne_zero (Or.inr hab)
    · rw [h.found a b, or_iff_left hab]
  · rw [List.map_append, List.map_singleton]
    exact h.distinct.append (List.nodup_singleton _) (by simpa using hfresh)
  · have hold : (created.map fun m' => (c.factory.register pool.token0 pool.token1 pool.pair).getPair
        m'.tokenA m'.tokenB) = c.factory.allPairs := by
      rw [h.listed]
      refine List.map_congr_left fun m' hm' => ?_
      rw [hget, if_neg]
      exact fun heq => hfresh (heq ▸ List.mem_map_of_mem hm')
    dsimp only
    rw [List.map_append, hold, List.map_singleton, (hget m.tokenA m.tokenB).trans (if_pos rfl)]
    rfl
  · have hmem : pool.pair ∉ c.factory.allPairs := by
      intro hmem
      obtain ⟨pool', hpool'⟩ := h.poolAt_of_mem hmem
      rw [Chain.poolAt, hnone] at hpool'
      cases hpool'
    exact h.nodup.append (List.nodup_singleton _) (by simpa using hmem)
  · refine (h.registered.setPair hnone).register ?_
    rw [Chain.poolAt, Chain.pairView_setPair, Function.update_self]
    rfl

/-- After any calls the registry holds the pairs of those that were accepted. -/
theorem run (feeToSetter : Address) (ms : List PairRequest) :
    let start : Chain := { c with factory := .deployed feeToSetter }
    Registry (d.createPairs.run start ms) (d.createPairs.history start ms) := by
  refine d.createPairs.run_induction ms (deployed feeToSetter) ?_ ?_
  · intro s hist h m _ hacc
    obtain ⟨pair, hcreate⟩ := createPairs_accepts hacc
    exact h.step hcreate
  · intro s hist h m _ hrej
    rw [createPairs_rejects hrej]
    exact h

end Registry

/-! ### Reserves in either order -/

theorem sortTokens_comm (tokenA tokenB : Address) :
    sortTokens tokenB tokenA = sortTokens tokenA tokenB := by
  unfold sortTokens
  rcases lt_trichotomy tokenA tokenB with hlt | rfl | hlt
  · rw [if_pos hlt, if_neg hlt.le.not_gt]
    simp only [require, if_pos hlt.ne, if_pos hlt.ne']
  · rfl
  · rw [if_pos hlt, if_neg hlt.le.not_gt]
    simp only [require, if_pos hlt.ne, if_pos hlt.ne']

theorem sortTokens_ok {token0 token1 : Address}
    (h : sortTokens tokenA tokenB = .ok (token0, token1)) :
    tokenA ≠ tokenB ∧ (token0 = tokenA ∨ token0 = tokenB) := by
  simp only [sortTokens, except_bind_ok_iff, require_ok_iff, except_pure_ok_iff] at h
  obtain ⟨-, hne, -, -, hpair⟩ := h
  refine ⟨hne, ?_⟩
  split_ifs at hpair
  · exact Or.inl (Prod.mk.inj hpair).1.symm
  · exact Or.inr (Prod.mk.inj hpair).1.symm

theorem inOrder_swap {token0 : Address} (hne : tokenA ≠ tokenB)
    (h : token0 = tokenA ∨ token0 = tokenB) (x y : ℕ) :
    inOrder tokenB token0 x y = (inOrder tokenA token0 x y).swap := by
  unfold inOrder
  rcases h with rfl | rfl
  · rw [if_pos rfl, if_neg hne.symm, Prod.swap_prod_mk]
  · rw [if_pos rfl, if_neg hne, Prod.swap_prod_mk]

theorem getReserves_swap
    (hsymmetric : c.factory.getPair tokenB tokenA = c.factory.getPair tokenA tokenB) :
    Library.getReserves c tokenB tokenA = Prod.swap <$> Library.getReserves c tokenA tokenB := by
  have hpair : pairFor c tokenB tokenA = pairFor c tokenA tokenB := hsymmetric
  unfold Library.getReserves
  rw [sortTokens_comm, hpair]
  cases hsort : sortTokens tokenA tokenB with
  | error e => rfl
  | ok tokens =>
    obtain ⟨hne, htoken0⟩ := sortTokens_ok hsort
    rw [except_ok_bind, except_ok_bind]
    cases c.getReserves (pairFor c tokenA tokenB) with
    | error e => rfl
    | ok reserves => exact congrArg Except.ok (inOrder_swap hne htoken0 _ _)

theorem sortTokens_of_trades (h : pool.Trades tokenA tokenB) :
    sortTokens tokenA tokenB = .ok (pool.token0, pool.token1) := by
  have hsorted : sortTokens pool.token0 pool.token1 = .ok (pool.token0, pool.token1) := by
    have hlt := pool.token0_lt_token1
    simp only [sortTokens, require, if_pos hlt.ne, if_pos hlt, if_pos pool.token0_ne_zero]
    rfl
  rcases h with ⟨rfl, rfl⟩ | ⟨rfl, rfl⟩
  · exact hsorted
  · rw [sortTokens_comm]
    exact hsorted

theorem getReserves_pairView {view : PairView} (hc : c.Registered)
    (hview : c.pairView (pairFor c tokenA tokenB) = some view) :
    Library.getReserves c tokenA tokenB = .ok (view.reserve tokenA, view.reserve tokenB) := by
  obtain ⟨p, hpair, -⟩ := Chain.exists_pair hview
  have htrades := hc.trades hpair (hpair ▸ Chain.poolAt_eq hview)
  simp only [Library.getReserves, sortTokens_of_trades htrades, Chain.getReserves_eq, hview,
    except_ok_bind]
  rcases htrades with ⟨rfl, rfl⟩ | ⟨rfl, rfl⟩
  · rw [inOrder, if_pos rfl, PairView.reserve_token0, PairView.reserve_token1]
    rfl
  · rw [inOrder, if_neg view.pool.token0_lt_token1.ne', PairView.reserve_token0,
      PairView.reserve_token1]
    rfl

/-! ### All calls -/

/-- After any calls of `createPair` the mapping is symmetric and has exactly the
tokens of the accepted calls, the list has their pairs in order and once each, each
pair is a contract of its two sorted tokens, and the library reads its reserves in
either order, whatever they have become. A rejected call changes nothing. -/
theorem createPairs_registry (d : Deployment) (c : Chain) (feeToSetter : Address)
    (ms : List PairRequest) :
    let start : Chain := { c with factory := .deployed feeToSetter }
    let c' := d.createPairs.run start ms
    let created := d.createPairs.history start ms
    let getPair := c'.factory.getPair
    (∀ a b, getPair a b = getPair b a) ∧
    (∀ a b, getPair a b ≠ .zero ↔ s(a, b) ∈ created.map PairRequest.tokens) ∧
    (created.map PairRequest.tokens).Nodup ∧
    c'.factory.allPairs = created.map (fun m => getPair m.tokenA m.tokenB) ∧
    c'.factory.allPairs.Nodup ∧
    (∀ a b, getPair a b ≠ .zero → ∃ pool, c'.poolAt (getPair a b) = some pool ∧
      pool.token0 < pool.token1 ∧ s(pool.token0, pool.token1) = s(a, b)) ∧
    (∀ later : Chain, later.factory.getPair = getPair → later.poolAt = c'.poolAt → ∀ a b,
      Library.getReserves later b a = Prod.swap <$> Library.getReserves later a b ∧
      ∀ view, later.pairView (getPair a b) = some view →
        Library.getReserves later a b = .ok (view.reserve a, view.reserve b)) ∧
    ∀ m, ¬ d.createPairs.Accepts c' m → (d.createPairs c' m).1 = c' := by
  intro start c' created getPair
  have h : Registry c' created := .run feeToSetter ms
  refine ⟨h.symmetric, h.found, h.distinct, h.listed, h.nodup, ?_, ?_, ?_⟩
  · intro a b hne
    obtain ⟨pool, hpool, htrades⟩ := h.registered a b hne
    exact ⟨pool, hpool, pool.token0_lt_token1, (Pool.trades_iff.mp htrades).symm⟩
  · intro later hget hpools a b
    have hregistered : later.Registered := by
      intro tokenA tokenB hne
      rw [hget] at hne ⊢
      rw [hpools]
      exact h.registered tokenA tokenB hne
    constructor
    · apply getReserves_swap
      rw [hget]
      exact h.symmetric b a
    · intro view hview
      have hfor : pairFor later a b = getPair a b := congrFun (congrFun hget a) b
      exact getReserves_pairView hregistered (hfor ▸ hview)
  · intro m hrej
    exact createPairs_rejects hrej

end EnergyChain.Dex
