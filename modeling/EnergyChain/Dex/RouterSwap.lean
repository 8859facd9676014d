import EnergyChain.Dex.Consistency

/-!
# Swaps along a path

The amounts of a path are computed from the reserves before the first swap, and
each pair pays its output into the next. Over pairs that are all different the
reserves the amounts were computed from are still there when their turn comes, so
that every swap succeeds with the amount that was computed.
-/

namespace EnergyChain.Dex

open Library

/-- The pairs of consecutive tokens of a path. -/
def hops (path : List Address) : List (Address × Address) := path.zip path.tail

namespace Chain

def pools (c : Chain) (path : List Address) : List Address :=
  (hops path).map fun hop => pairFor c hop.1 hop.2

/-- The balances of a pair are its reserves. -/
def Balanced (c : Chain) (hop : Address × Address) : Prop :=
  let pair := pairFor c hop.1 hop.2
  c.balanceOf hop.1 pair = c.reserve pair hop.1 ∧ c.balanceOf hop.2 pair = c.reserve pair hop.2

def reserveProduct (c : Chain) (hop : Address × Address) : ℕ :=
  let pair := pairFor c hop.1 hop.2
  c.reserve pair hop.1 * c.reserve pair hop.2

variable {c c' : Chain} {pair output dst : Address} {view : PairView} {x y : ℕ}

theorem pools_congr (hfactory : c'.factory = c.factory) (path : List Address) :
    c'.pools path = c.pools path := by
  simp only [pools, pairFor, hfactory]

theorem amountsOutFrom_congr {path : List Address} (hfactory : c'.factory = c.factory)
    (hview : ∀ p ∈ c.pools path, c'.pairView p = c.pairView p) :
    amountsOutFrom c' x path = amountsOutFrom c x path := by
  induction path generalizing x with
  | nil => rfl
  | cons input rest ih =>
    cases rest with
    | nil => rfl
    | cons output rest =>
      simp only [pools, hops, List.tail_cons, List.zip_cons_cons, List.map_cons, List.mem_cons,
        forall_eq_or_imp] at hview
      have hrest : ∀ z, amountsOutFrom c' z (output :: rest) =
          amountsOutFrom c z (output :: rest) := fun z => ih hview.2
      simp only [amountsOutFrom, getReserves_congr hfactory hview.1, hrest]

theorem amountsOutFrom_cons {input : Address} {rest : List Address} {as : List ℕ}
    (h : amountsOutFrom c x (input :: output :: rest) = .ok as) :
    ∃ r s y amounts, Library.getReserves c input output = .ok (r, s) ∧
      getAmountOut x r s = .ok y ∧ amountsOutFrom c y (output :: rest) = .ok amounts ∧
      as = x :: amounts := by
  simp only [amountsOutFrom, except_bind_ok_iff, except_pure_ok_iff] at h
  obtain ⟨⟨r, s⟩, hreserves, y, hy, amounts, hamounts, rfl⟩ := h
  exact ⟨r, s, y, amounts, hreserves, hy, hamounts, rfl⟩

theorem amountsOutFrom_head {path : List Address} {as : List ℕ}
    (h : amountsOutFrom c x path = .ok as) : ∃ rest, as = x :: rest := by
  match path, h with
  | [], h => exact ⟨[], (Except.ok.inj h).symm⟩
  | [_], h => exact ⟨[], (Except.ok.inj h).symm⟩
  | _ :: _ :: _, h =>
    obtain ⟨-, -, -, amounts, -, -, -, rfl⟩ := amountsOutFrom_cons h
    exact ⟨amounts, rfl⟩

/-! ### One swap of a path -/

namespace PairSwapped

variable {amountOut : ℕ}

theorem pairView_of_ne (h : PairSwapped pair output dst amountOut view c c') {p : Address}
    (hp : p ≠ pair) : c'.pairView p = c.pairView p := by
  rw [h.pairView, Function.update_of_ne hp]

theorem pairView_self (h : PairSwapped pair output dst amountOut view c c') :
    c'.pairView pair = some ⟨view.pool, c'.balanceOf view.pool.token0 pair,
      c'.balanceOf view.pool.token1 pair, 1⟩ := by
  rw [h.pairView, Function.update_self]

theorem poolAt (h : PairSwapped pair output dst amountOut view c c') : c'.poolAt = c.poolAt := by
  funext a
  by_cases ha : a = pair
  · rw [ha, Chain.poolAt, Chain.poolAt, h.pairView_self, h.found]
    rfl
  · rw [Chain.poolAt, Chain.poolAt, h.pairView_of_ne ha]

theorem reserve_token (h : PairSwapped pair output dst amountOut view c c') {token : Address}
    (ht : token = view.pool.token0 ∨ token = view.pool.token1) :
    c'.reserve pair token = c'.balanceOf token pair := by
  rw [reserve_eq h.pairView_self]
  rcases ht with rfl | rfl
  · exact PairView.reserve_token0 _
  · exact PairView.reserve_token1 _

theorem consistent (h : PairSwapped pair output dst amountOut view c c') (hc : c.Consistent) :
    c'.Consistent := by
  have hview : ∀ a view', c'.pairView a = some view' → a ≠ pair ∧ c.pairView a = some view' ∨
      a = pair ∧ view' = ⟨view.pool, c'.balanceOf view.pool.token0 pair,
        c'.balanceOf view.pool.token1 pair, 1⟩ := by
    intro a view' ha
    by_cases hne : a = pair
    · subst hne
      exact Or.inr ⟨rfl, Option.some.inj (ha.symm.trans h.pairView_self)⟩
    · exact Or.inl ⟨hne, h.pairView_of_ne hne ▸ ha⟩
  constructor
  · intro tokenA tokenB hne
    rw [h.moved.factory] at hne ⊢
    obtain ⟨pool, hpool, htrades⟩ := hc.registered tokenA tokenB hne
    exact ⟨pool, h.poolAt ▸ hpool, htrades⟩
  · intro a view' ha
    rcases hview a view' ha with ⟨-, hold⟩ | ⟨-, rfl⟩
    · exact hc.unlocked a view' hold
    · rfl
  · intro a view' ha
    rcases hview a view' ha with ⟨-, hold⟩ | ⟨-, rfl⟩
    · exact hc.bounded a view' hold
    · exact ⟨h.bounded0, h.bounded1⟩
  · intro token
    rw [h.moved.total]
    exact hc.standard token

end PairSwapped

/-- The pair holds its reserves, and an amount of the first token has come in. -/
def Loaded (c : Chain) (hop : Address × Address) (amountIn : ℕ) : Prop :=
  let pair := pairFor c hop.1 hop.2
  c.balanceOf hop.1 pair = c.reserve pair hop.1 + amountIn ∧
    c.balanceOf hop.2 pair = c.reserve pair hop.2

/-- A loaded pair swaps for the amount of the library, or less, and is balanced again
at a product that is not smaller. -/
theorem swapPair_loaded (block : Block) {input : Address} {r s : ℕ} (hc : c.Consistent)
    (hreserves : Library.getReserves c input output = .ok (r, s)) (hr₀ : 0 < r)
    (hamount : y ≤ ConstantProduct.amountOut 997 1000 x r s) (hpos : 0 < y)
    (hfits : c.reserve (pairFor c input output) input + x < 2 ^ 112)
    (hloaded : c.Loaded (input, output) x)
    (hdst : dst ≠ input ∧ dst ≠ output ∧ dst ≠ pairFor c input output) :
    ∃ token0 token1 view c', sortTokens input output = .ok (token0, token1) ∧
      Router.swapPair block (pairFor c input output) input token0 y dst c = .ok c' ∧
      PairSwapped (pairFor c input output) output dst y view c c' ∧ input ≠ output ∧
      c'.Balanced (input, output) ∧
      c.reserveProduct (input, output) ≤ c'.reserveProduct (input, output) := by
  obtain ⟨view, token0, token1, hview, htrades, hsort, hr, hs⟩ :=
    getReserves_ok hc.registered hreserves
  obtain ⟨hin, hout⟩ := hloaded
  simp only [reserve_eq hview] at hin hout hfits
  subst hr hs
  obtain ⟨c', hrun⟩ := swapPair_succeeds block hview htrades hsort
    (hc.unlocked _ _ hview) hin hout hr₀ hamount hpos hfits
    (PairView.reserve_lt (hc.bounded _ _ hview)) hdst (hc.standard output)
  obtain ⟨view', htrades', hswapped⟩ := swapPair_swapped hc.registered hsort hrun
  have hne := htrades.ne
  have hpair : pairFor c' input output = pairFor c input output := by
    rw [pairFor, pairFor, hswapped.moved.factory]
  have hreserve : ∀ token, token = input ∨ token = output →
      c'.reserve (pairFor c input output) token = c'.balanceOf token (pairFor c input output) := by
    intro token htoken
    apply hswapped.reserve_token
    rcases htrades' with ⟨h₀, h₁⟩ | ⟨h₀, h₁⟩ <;> rcases htoken with rfl | rfl <;> simp [h₀, h₁]
  have hinput := hreserve input (Or.inl rfl)
  have houtput := hreserve output (Or.inr rfl)
  refine ⟨token0, token1, view', c', hsort, hrun, hswapped, hne, ?_, ?_⟩
  · simp only [Balanced, hpair]
    exact ⟨hinput.symm, houtput.symm⟩
  · simp only [reserveProduct, hpair, hinput, houtput, reserve_eq hview]
    rw [hswapped.moved.balanceOf_of_ne hne, hin, hswapped.moved.balanceOf_token,
      Ledger.move_source hdst.2.2.symm, hout]
    obtain ⟨-, hs₀⟩ := ConstantProduct.pos_of_amountOut_pos (hpos.trans_le hamount)
    exact ConstantProduct.product_le (by norm_num) (by omega) hs₀ hamount

/-! ### All swaps of a path -/

/-- The pairs of the path are all different, and the recipient is apart from them
and from the tokens. No pair is the token that the pair before it takes in, and
none gets more than it can hold. -/
structure Routed (c : Chain) (path : List Address) (amounts : List ℕ) (dst : Address) : Prop where
  nodup : (c.pools path).Nodup
  dst_notMem_path : dst ∉ path
  dst_notMem_pools : dst ∉ c.pools path
  separate : ∀ x ∈ path.zip (hops path.tail), pairFor c x.2.1 x.2.2 ≠ x.1
  fits : ∀ x ∈ (hops path).zip amounts, c.reserve (pairFor c x.1.1 x.1.2) x.1.1 + x.2 < 2 ^ 112

/-- Each pair of the path can pay its amount for the one before. -/
inductive Payable (c : Chain) : List Address → List ℕ → Prop
  | last (token : Address) (x : ℕ) : Payable c [token] [x]
  | hop {input output : Address} {rest : List Address} {x y r s : ℕ} {amounts : List ℕ}
      (reserves : Library.getReserves c input output = .ok (r, s)) (reserveIn : 0 < r)
      (positive : 0 < y) (amount : y ≤ ConstantProduct.amountOut 997 1000 x r s)
      (rest_payable : Payable c (output :: rest) (y :: amounts)) :
      Payable c (input :: output :: rest) (x :: y :: amounts)

/-- What the swaps of a path do. -/
structure PathSwapped (path : List Address) (token dst : Address) (amountOut : ℕ)
    (c c' : Chain) : Prop where
  settled : ∀ hop ∈ hops path, c'.Balanced hop ∧ c.reserveProduct hop ≤ c'.reserveProduct hop
  received : c'.balanceOf token dst = c.balanceOf token dst + amountOut
  kept : ∀ t owner, owner ∉ c.pools path → (owner = dst → t ≠ token) →
    c'.balanceOf t owner = c.balanceOf t owner
  factory : c'.factory = c.factory
  pairView : ∀ p ∉ c.pools path, c'.pairView p = c.pairView p

section Path

variable {input : Address} {rest : List Address} {amounts : List ℕ}

theorem pools_cons : c.pools (input :: output :: rest) =
    pairFor c input output :: c.pools (output :: rest) := rfl

theorem hops_cons : hops (input :: output :: rest) = (input, output) :: hops (output :: rest) := rfl

theorem Routed.tail (h : c.Routed (input :: output :: rest) (x :: amounts) dst) :
    c.Routed (output :: rest) amounts dst where
  nodup := (List.nodup_cons.mp h.nodup).2
  dst_notMem_path := fun hmem => h.dst_notMem_path (List.mem_cons_of_mem _ hmem)
  dst_notMem_pools := fun hmem => h.dst_notMem_pools (List.mem_cons_of_mem _ hmem)
  separate := by
    cases rest with
    | nil => simp [hops]
    | cons next rest => exact fun z hz => h.separate z (List.mem_cons_of_mem _ hz)
  fits z hz := h.fits z (List.mem_cons_of_mem _ hz)

theorem Routed.congr {path : List Address} (h : c.Routed path amounts dst)
    (hfactory : c'.factory = c.factory) (hview : ∀ p ∈ c.pools path, c'.pairView p = c.pairView p) :
    c'.Routed path amounts dst := by
  have hpools := pools_congr hfactory path
  have hpair : ∀ a b, pairFor c' a b = pairFor c a b := by
    intro a b
    rw [pairFor, pairFor, hfactory]
  constructor
  · exact hpools ▸ h.nodup
  · exact h.dst_notMem_path
  · exact hpools ▸ h.dst_notMem_pools
  · intro z hz
    rw [hpair]
    exact h.separate z hz
  · intro z hz
    have hmem : pairFor c z.1.1 z.1.2 ∈ c.pools path :=
      List.mem_map_of_mem (List.of_mem_zip hz).1
    rw [hpair, reserve_congr (hview _ hmem)]
    exact h.fits z hz

theorem swap_cons {block : Block} {token0 token1 : Address} {c₁ : Chain}
    (hsort : sortTokens input output = .ok (token0, token1))
    (hrun : Router.swapPair block (pairFor c input output) input token0 y
      (Router.nextHolder c output rest dst) c = .ok c₁) :
    Router.swap block dst (y :: amounts) (input :: output :: rest) c =
      Router.swap block dst amounts (output :: rest) c₁ := by
  simp only [Router.swap, hsort, except_ok_bind, index, List.getElem?_cons_zero, hrun,
    List.tail_cons]

theorem Payable.congr {path : List Address} (h : c.Payable path amounts)
    (hfactory : c'.factory = c.factory) (hview : ∀ p ∈ c.pools path, c'.pairView p = c.pairView p) :
    c'.Payable path amounts := by
  induction h with
  | last token x => exact .last token x
  | @hop input output rest x y r s amounts hreserves hr hpos hamount hrest ih =>
    rw [pools_cons] at hview
    have hsame := hview _ List.mem_cons_self
    apply Payable.hop _ hr hpos hamount (ih fun p hp => hview p (List.mem_cons_of_mem _ hp))
    rw [getReserves_congr hfactory hsame]
    exact hreserves

theorem payable_of_amountsOut {path : List Address} {amountOut : ℕ} (hne : path ≠ [])
    (hamounts : amountsOutFrom c x path = .ok (x :: amounts))
    (hlast : (x :: amounts).getLast? = some amountOut) (hpos : 0 < amountOut) :
    c.Payable path (x :: amounts) ∧ 0 < x := by
  induction path generalizing x amounts with
  | nil => exact absurd rfl hne
  | cons input rest ih =>
    cases rest with
    | nil =>
      obtain rfl := (List.cons.inj (Except.ok.inj hamounts)).2
      obtain rfl : x = amountOut := by simpa using hlast
      exact ⟨.last input x, hpos⟩
    | cons output rest =>
      obtain ⟨r, s, y, as, hreserves, hy, has, hcons⟩ := amountsOutFrom_cons hamounts
      obtain rfl := (List.cons.inj hcons).2
      obtain ⟨amounts, rfl⟩ := amountsOutFrom_head has
      obtain ⟨hrest, hypos⟩ := ih (List.cons_ne_nil _ _) has (by simpa using hlast)
      obtain ⟨hx, hr, -, rfl⟩ := getAmountOut_ok hy
      exact ⟨.hop hreserves hr hypos le_rfl hrest, hx⟩

theorem Payable.exists_reserves (h : c.Payable (input :: output :: rest) amounts) :
    ∃ r s, Library.getReserves c input output = .ok (r, s) := by
  cases h with
  | hop hreserves => exact ⟨_, _, hreserves⟩

theorem Payable.ne (h : c.Payable (input :: output :: rest) amounts) (hc : c.Registered) :
    input ≠ output := by
  obtain ⟨r, s, hreserves⟩ := h.exists_reserves
  obtain ⟨_, -, -, -, htrades, -⟩ := getReserves_ok hc hreserves
  exact htrades.ne

theorem nextHolder_apart (hc : c.Consistent) {as : List ℕ}
    (hpayable : c.Payable (output :: rest) as)
    (hrouted : c.Routed (input :: output :: rest) amounts dst) :
    let holder := Router.nextHolder c output rest dst
    holder ≠ input ∧ holder ≠ output ∧ holder ≠ pairFor c input output := by
  intro holder
  cases rest with
  | nil =>
    have hpath := hrouted.dst_notMem_path
    have hpools := hrouted.dst_notMem_pools
    simp only [List.mem_cons, not_or] at hpath
    refine ⟨hpath.1, hpath.2.1, ?_⟩
    intro heq
    have hdst : dst = pairFor c input output := heq
    exact hpools (hdst ▸ List.mem_cons_self)
  | cons next rest =>
    obtain ⟨r, s, hreserves⟩ := hpayable.exists_reserves
    obtain ⟨view, -, -, hview, htrades, -⟩ := getReserves_ok hc.registered hreserves
    obtain ⟨p, hpair, -⟩ := exists_pair hview
    refine ⟨hrouted.separate (input, (output, next)) List.mem_cons_self, ?_, ?_⟩
    · change pairFor c output next ≠ output
      rw [hpair]
      rcases htrades with ⟨rfl, -⟩ | ⟨-, rfl⟩
      · exact view.pool.pair_ne_token0
      · exact view.pool.pair_ne_token1
    · have hnodup := hrouted.nodup
      rw [pools_cons, pools_cons] at hnodup
      intro heq
      exact (List.nodup_cons.mp hnodup).1 (heq ▸ List.mem_cons_self)

theorem PathSwapped.cons {c₁ : Chain} {token : Address} {amountOut : ℕ} {rest : List Address}
    {next : Address} (hnodup : (c.pools (input :: output :: next :: rest)).Nodup)
    (hdst : dst ∉ c.pools (input :: output :: next :: rest))
    (hfirst : PairSwapped (pairFor c input output) output (pairFor c output next) y view c c₁)
    (hbalanced : c₁.Balanced (input, output))
    (hproduct : c.reserveProduct (input, output) ≤ c₁.reserveProduct (input, output))
    (hrest : PathSwapped (output :: next :: rest) token dst amountOut c₁ c') :
    PathSwapped (input :: output :: next :: rest) token dst amountOut c c' := by
  have hfactory := hfirst.moved.factory
  have hpair : ∀ a b, pairFor c₁ a b = pairFor c a b := by
    intro a b
    rw [pairFor, pairFor, hfactory]
  have hpools := pools_congr hfactory (output :: next :: rest)
  have hpair' : pairFor c' input output = pairFor c input output := by
    rw [pairFor, pairFor, hrest.factory, hfactory]
  rw [pools_cons, List.nodup_cons] at hnodup
  rw [pools_cons, List.mem_cons, not_or] at hdst
  have hview : c'.pairView (pairFor c input output) = c₁.pairView (pairFor c input output) :=
    hrest.pairView _ (hpools ▸ hnodup.1)
  have hkept : ∀ t, c'.balanceOf t (pairFor c input output) =
      c₁.balanceOf t (pairFor c input output) := by
    intro t
    exact hrest.kept t _ (hpools ▸ hnodup.1) fun heq => absurd heq.symm hdst.1
  constructor
  · intro hop hhop
    rw [hops_cons, List.mem_cons] at hhop
    rcases hhop with rfl | hhop
    · simp only [Balanced, reserveProduct, hpair', hpair, hkept, reserve_congr hview] at *
      exact ⟨hbalanced, hproduct⟩
    · obtain ⟨hsettled, hle⟩ := hrest.settled hop hhop
      have hmem : pairFor c hop.1 hop.2 ∈ c.pools (output :: next :: rest) :=
        List.mem_map_of_mem hhop
      have hsame : c.reserveProduct hop = c₁.reserveProduct hop := by
        have hne : pairFor c hop.1 hop.2 ≠ pairFor c input output := by
          intro heq
          exact hnodup.1 (heq ▸ hmem)
        simp only [reserveProduct, hpair, reserve_congr (hfirst.pairView_of_ne hne)]
      exact ⟨hsettled, hsame ▸ hle⟩
  · rw [hrest.received, hfirst.moved.balanceOf_owner hdst.1]
    intro heq
    exact hdst.2 (heq ▸ List.mem_cons_self)
  · intro t owner howner hne
    rw [pools_cons, List.mem_cons, not_or] at howner
    rw [hrest.kept t owner (hpools ▸ howner.2) hne, hfirst.moved.balanceOf_owner howner.1]
    intro heq
    exact howner.2 (heq ▸ List.mem_cons_self)
  · exact hrest.factory.trans hfactory
  · intro p hp
    rw [pools_cons, List.mem_cons, not_or] at hp
    rw [hrest.pairView p (hpools ▸ hp.2), hfirst.pairView_of_ne hp.1]

theorem PathSwapped.single (hfirst : PairSwapped (pairFor c input output) output dst y view c c')
    (hdst : dst ∉ c.pools [input, output]) (hbalanced : c'.Balanced (input, output))
    (hproduct : c.reserveProduct (input, output) ≤ c'.reserveProduct (input, output)) :
    PathSwapped [input, output] output dst y c c' := by
  have hne : dst ≠ pairFor c input output := fun heq => hdst (heq ▸ List.mem_cons_self)
  constructor
  · intro hop hhop
    obtain rfl : hop = (input, output) := by simpa [hops] using hhop
    exact ⟨hbalanced, hproduct⟩
  · rw [hfirst.moved.balanceOf_token, Ledger.move_target hne.symm]
  · intro t owner howner htoken
    have howner' : owner ≠ pairFor c input output := fun heq => howner (heq ▸ List.mem_cons_self)
    by_cases heq : owner = dst
    · rw [hfirst.moved.balanceOf_of_ne (htoken heq)]
    · exact hfirst.moved.balanceOf_owner howner' heq
  · exact hfirst.moved.factory
  · intro p hp
    exact hfirst.pairView_of_ne fun heq => hp (heq ▸ List.mem_cons_self)

/-- After the first swap the rest of the path is as it was, and its first pair is
loaded. -/
theorem loaded_next {c₁ : Chain} {next : Address} {rest : List Address}
    (hnodup : (c.pools (input :: output :: next :: rest)).Nodup)
    (hfirst : PairSwapped (pairFor c input output) output (pairFor c output next) y view c c₁)
    (hdiffer : output ≠ next)
    (hbalanced : ∀ hop ∈ hops (output :: next :: rest), c.Balanced hop) :
    c₁.Loaded (output, next) y ∧ ∀ hop ∈ hops (next :: rest), c₁.Balanced hop := by
  rw [pools_cons, pools_cons, List.nodup_cons, List.nodup_cons, List.mem_cons, not_or] at hnodup
  obtain ⟨⟨hne, hfar⟩, hfar', -⟩ := hnodup
  have hne' : pairFor c output next ≠ pairFor c input output := Ne.symm hne
  have hpair : ∀ a b, pairFor c₁ a b = pairFor c a b := by
    intro a b
    rw [pairFor, pairFor, hfirst.moved.factory]
  constructor
  · obtain ⟨hin, hout⟩ := hbalanced (output, next) List.mem_cons_self
    simp only [Loaded, hpair, reserve_congr (hfirst.pairView_of_ne hne')]
    rw [hfirst.moved.balanceOf_token, Ledger.move_target hne,
      hfirst.moved.balanceOf_of_ne hdiffer.symm]
    exact ⟨congrArg (· + y) hin, hout⟩
  · intro hop hhop
    have hmem : pairFor c hop.1 hop.2 ∈ c.pools (next :: rest) := List.mem_map_of_mem hhop
    have hne₁ : pairFor c hop.1 hop.2 ≠ pairFor c input output := fun heq => hfar (heq ▸ hmem)
    have hne₂ : pairFor c hop.1 hop.2 ≠ pairFor c output next := fun heq => hfar' (heq ▸ hmem)
    have hsame := hbalanced hop (List.mem_cons_of_mem _ hhop)
    simp only [Balanced, hpair, reserve_congr (hfirst.pairView_of_ne hne₁),
      hfirst.moved.balanceOf_owner hne₁ hne₂]
    exact hsame

/-- Every swap of a routed path succeeds, by induction on the path: the chain after
a swap is one from which the rest of the path can be swapped. -/
theorem swap_payable (block : Block) {token : Address} {amountOut : ℕ} (hc : c.Consistent)
    (hpayable : c.Payable (input :: output :: rest) (x :: amounts))
    (hrouted : c.Routed (input :: output :: rest) (x :: amounts) dst)
    (hloaded : c.Loaded (input, output) x)
    (hbalanced : ∀ hop ∈ hops (output :: rest), c.Balanced hop)
    (hlast : (x :: amounts).getLast? = some amountOut)
    (htoken : (input :: output :: rest).getLast? = some token) :
    ∃ c', Router.swap block dst amounts (input :: output :: rest) c = .ok c' ∧
      PathSwapped (input :: output :: rest) token dst amountOut c c' := by
  induction rest generalizing c input output x amounts with
  | nil =>
    cases hpayable with
    | @hop _ _ _ _ y r s _ hreserves hr hpos hy hrest =>
      cases hrest
      obtain rfl : y = amountOut := by simpa using hlast
      obtain rfl : output = token := by simpa using htoken
      have hdst := nextHolder_apart hc (.last output y) hrouted
      have hfits := hrouted.fits ((input, output), x) List.mem_cons_self
      obtain ⟨token0, token1, view, c', hsort, hrun, hswapped, -, hsettled, hproduct⟩ :=
        swapPair_loaded block hc hreserves hr hy hpos hfits hloaded hdst
      refine ⟨c', ?_, .single hswapped hrouted.dst_notMem_pools hsettled hproduct⟩
      rw [swap_cons hsort hrun]
      rfl
  | cons next rest ih =>
    cases hpayable with
    | @hop _ _ _ _ y r s amounts hreserves hr hpos hy hrest =>
      have hdst := nextHolder_apart hc hrest hrouted
      have hfits := hrouted.fits ((input, output), x) List.mem_cons_self
      obtain ⟨token0, token1, view, c₁, hsort, hrun, hswapped, -, hsettled, hproduct⟩ :=
        swapPair_loaded block hc hreserves hr hy hpos hfits hloaded hdst
      obtain ⟨hloaded₁, hbalanced₁⟩ :=
        loaded_next hrouted.nodup hswapped (hrest.ne hc.registered) hbalanced
      have hview : ∀ p ∈ c.pools (output :: next :: rest), c₁.pairView p = c.pairView p := by
        intro p hp
        refine hswapped.pairView_of_ne ?_
        rintro rfl
        exact (List.nodup_cons.mp hrouted.nodup).1 hp
      have hfactory := hswapped.moved.factory
      obtain ⟨c', hrest, hpath⟩ := ih (hswapped.consistent hc) (hrest.congr hfactory hview)
        (hrouted.tail.congr hfactory hview) hloaded₁ hbalanced₁
        (by simpa using hlast) (by simpa using htoken)
      refine ⟨c', ?_,
        .cons hrouted.nodup hrouted.dst_notMem_pools hswapped hsettled hproduct hpath⟩
      rw [swap_cons hsort hrun]
      exact hrest

end Path

end Chain

/-! ### `swapExactTokensForTokens` -/

section Swap

variable {d : Deployment} {block : Block} {c : Chain} {sender dst first token : Address}
  {path : List Address} {amounts : List ℕ} {amountIn amountOutMin amountOut deadline : ℕ}

/-- The payment of a swap loads the first pair of the path and leaves the other
pairs balanced. -/
theorem payFirst_loads {output : Address} {rest : List Address} (hc : c.Consistent)
    (hnodup : (c.pools (first :: output :: rest)).Nodup)
    (hbalanced : ∀ hop ∈ hops (first :: output :: rest), c.Balanced hop)
    (hne : first ≠ output) (hsender : sender ∉ c.pools (first :: output :: rest))
    (hfunds : amountIn ≤ c.balanceOf first sender)
    (hallowed : amountIn ≤ c.allowance first sender d.router) :
    ∃ c₁, Router.payFirst d sender (first :: output :: rest) amountIn c = .ok c₁ ∧
      Chain.Moved first sender (pairFor c first output) amountIn c c₁ ∧
      c₁.pairView = c.pairView ∧ c₁.Loaded (first, output) amountIn ∧
      ∀ hop ∈ hops (output :: rest), c₁.Balanced hop := by
  have hapart : ∀ hop ∈ hops (first :: output :: rest), pairFor c hop.1 hop.2 ≠ sender := by
    intro hop hhop heq
    exact hsender (heq ▸ List.mem_map_of_mem hhop)
  have hpair : pairFor c first output ≠ sender := hapart (first, output) List.mem_cons_self
  obtain ⟨c₁, hpaid⟩ := Chain.transferFrom_succeeds hfunds hallowed hpair.symm (hc.standard first)
  obtain ⟨hmoved, hview⟩ := Chain.transferFrom_moved hpaid
  have hsame : ∀ a b, pairFor c₁ a b = pairFor c a b := by
    intro a b
    rw [pairFor, pairFor, hmoved.factory]
  refine ⟨c₁, ?_, hmoved, hview, ?_, ?_⟩
  · simp only [Router.payFirst, Router.firstPair, index, List.getElem?_cons_zero,
      List.getElem?_cons_succ, except_ok_bind, pure_bind, Router.safeTransferFrom, hpaid]
  · obtain ⟨hin, hout⟩ := hbalanced (first, output) List.mem_cons_self
    simp only [Chain.Loaded, hsame, Chain.reserve_congr (congrFun hview _)]
    rw [hmoved.balanceOf_token, Ledger.move_target hpair.symm, hmoved.balanceOf_of_ne hne.symm]
    exact ⟨congrArg (· + amountIn) hin, hout⟩
  · intro hop hhop
    have hother : pairFor c hop.1 hop.2 ≠ pairFor c first output := by
      have hmem : pairFor c hop.1 hop.2 ∈ c.pools (output :: rest) := List.mem_map_of_mem hhop
      have hfar : pairFor c first output ∉ c.pools (output :: rest) := (List.nodup_cons.mp hnodup).1
      exact fun heq => hfar (heq ▸ hmem)
    have hbefore := hbalanced hop (List.mem_cons_of_mem _ hhop)
    simp only [Chain.Balanced, hsame, Chain.reserve_congr (congrFun hview _),
      hmoved.balanceOf_owner (hapart hop (List.mem_cons_of_mem _ hhop)) hother]
    exact hbefore

/-- What a trade along a path does to the balances and the pairs. -/
structure RouteTraded (path : List Address) (first token sender dst : Address)
    (amountIn amountOut : ℕ) (c c' : Chain) : Prop where
  paid : c'.balanceOf first sender + amountIn = c.balanceOf first sender
  received : c'.balanceOf token dst = c.balanceOf token dst + amountOut
  settled : ∀ hop ∈ hops path, c'.Balanced hop ∧ c.reserveProduct hop ≤ c'.reserveProduct hop
  kept : ∀ t owner, owner ∉ c.pools path → (owner = sender → t ≠ first) →
    (owner = dst → t ≠ token) → c'.balanceOf t owner = c.balanceOf t owner

theorem trade_payable (d : Deployment) (block : Block) (hc : c.Consistent)
    (hpayable : c.Payable path amounts) (hlength : 2 ≤ path.length)
    (hfirst : path.head? = some first)
    (htoken : path.getLast? = some token) (hpaid : amounts.head? = some amountIn)
    (hlast : amounts.getLast? = some amountOut) (hrouted : c.Routed path amounts dst)
    (hbalanced : ∀ hop ∈ hops path, c.Balanced hop) (hsender : sender ∉ c.pools path)
    (hfunds : amountIn ≤ c.balanceOf first sender)
    (hallowed : amountIn ≤ c.allowance first sender d.router) (hdst : dst ≠ sender) :
    ∃ c₁ c', Router.payFirst d sender path amountIn c = .ok c₁ ∧
      Router.swap block dst amounts.tail path c₁ = .ok c' ∧
      RouteTraded path first token sender dst amountIn amountOut c c' := by
  obtain ⟨_, output, rest, rfl⟩ : ∃ input output rest, path = input :: output :: rest := by
    match path, hlength with
    | input :: output :: rest, _ => exact ⟨input, output, rest, rfl⟩
  obtain rfl := Option.some.inj hfirst.symm
  obtain ⟨amounts, rfl⟩ := List.head?_eq_some_iff.mp hpaid
  obtain ⟨c₁, hpay, hmoved, hview, hloaded, hbalanced₁⟩ := payFirst_loads (d := d) hc hrouted.nodup
    hbalanced (hpayable.ne hc.registered) hsender hfunds hallowed
  have hsame : ∀ p ∈ c.pools (first :: output :: rest), c₁.pairView p = c.pairView p :=
    fun p _ => congrFun hview p
  obtain ⟨c', hrun, hpath⟩ := Chain.swap_payable block (hmoved.consistent hview hc)
    (hpayable.congr hmoved.factory hsame) (hrouted.congr hmoved.factory hsame) hloaded hbalanced₁
    hlast htoken
  have hpools := Chain.pools_congr hmoved.factory (first :: output :: rest)
  have hpair : pairFor c first output ∈ c.pools (first :: output :: rest) := List.mem_cons_self
  refine ⟨c₁, c', hpay, hrun, ?_⟩
  constructor
  · have hkept : c'.balanceOf first sender = c₁.balanceOf first sender :=
      hpath.kept first sender (hpools ▸ hsender) fun heq => absurd heq.symm hdst
    rw [hkept, hmoved.balanceOf_token, Ledger.move_source]
    · omega
    · exact fun heq => hsender (heq ▸ hpair)
  · rw [hpath.received, hmoved.balanceOf_owner hdst]
    exact fun heq => hrouted.dst_notMem_pools (heq ▸ hpair)
  · intro hop hhop
    obtain ⟨hsettled, hle⟩ := hpath.settled hop hhop
    have hproduct : c₁.reserveProduct hop = c.reserveProduct hop := by
      simp only [Chain.reserveProduct, pairFor, hmoved.factory,
        Chain.reserve_congr (congrFun hview _)]
    exact ⟨hsettled, hproduct ▸ hle⟩
  · intro t owner howner hsent hreceived
    rw [hpath.kept t owner (hpools ▸ howner) hreceived]
    by_cases heq : owner = sender
    · rw [hmoved.balanceOf_of_ne (hsent heq)]
    · exact hmoved.balanceOf_owner heq fun heq => howner (heq ▸ hpair)

/-- A swap along a path of different pairs gives exactly the amounts of the
library, when no pair is the token that the pair before it takes in. -/
theorem swapExactTokensForTokens_exact (hc : c.Consistent)
    (hamounts : getAmountsOut c amountIn path = .ok amounts)
    (hfirst : path.head? = some first) (htoken : path.getLast? = some token)
    (hlast : amounts.getLast? = some amountOut) (hpos : 0 < amountOut)
    (hmin : amountOutMin ≤ amountOut) (hdeadline : block.timestamp ≤ deadline)
    (hnodup : (c.pools path).Nodup) (hbalanced : ∀ hop ∈ hops path, c.Balanced hop)
    (hfits : ∀ x ∈ (hops path).zip amounts,
      c.reserve (pairFor c x.1.1 x.1.2) x.1.1 + x.2 < 2 ^ 112)
    (hsender : sender ∉ c.pools path) (hfunds : amountIn ≤ c.balanceOf first sender)
    (hallowed : amountIn ≤ c.allowance first sender d.router)
    (hdst : dst ≠ sender ∧ dst ∉ path ∧ dst ∉ c.pools path)
    (hseparate : ∀ x ∈ path.zip (hops path.tail), pairFor c x.2.1 x.2.2 ≠ x.1) :
    ∃ c', Router.swapExactTokensForTokens d block sender amountIn amountOutMin path dst deadline c =
        .ok (amounts, c') ∧
      c'.balanceOf first sender + amountIn = c.balanceOf first sender ∧
      c'.balanceOf token dst = c.balanceOf token dst + amountOut ∧
      (∀ hop ∈ hops path, c'.Balanced hop ∧ c.reserveProduct hop ≤ c'.reserveProduct hop) ∧
      ∀ t owner, owner ∉ c.pools path → (owner = sender → t ≠ first) → (owner = dst → t ≠ token) →
        c'.balanceOf t owner = c.balanceOf t owner := by
  have hrouted : c.Routed path amounts dst := ⟨hnodup, hdst.2.1, hdst.2.2, hseparate, hfits⟩
  have hread := hamounts
  simp only [getAmountsOut, except_bind_ok_iff, require_ok_iff] at hread
  obtain ⟨-, hlength, hread⟩ := hread
  obtain ⟨amounts, rfl⟩ := Chain.amountsOutFrom_head hread
  obtain ⟨hpayable, -⟩ :=
    Chain.payable_of_amountsOut (by rintro rfl; simp at hlength) hread hlast hpos
  obtain ⟨c₁, c', hpay, hrun, htraded⟩ := trade_payable d block hc hpayable hlength hfirst htoken
    rfl hlast hrouted hbalanced hsender hfunds hallowed hdst.1
  refine ⟨c', ?_, htraded.paid, htraded.received, htraded.settled, htraded.kept⟩
  simp only [Router.swapExactTokensForTokens, Router.ensure, except_bind_ok_iff, require_ok_iff,
    except_pure_ok_iff]
  exact ⟨(), hdeadline, _, hamounts, _, Router.last_ok_iff.mpr hlast, (), hmin, _, rfl, c₁, hpay,
    c', hrun, rfl⟩

end Swap

/-! ### Sample paths -/

instance (c : Chain) (hop : Address × Address) : Decidable (c.Balanced hop) :=
  inferInstanceAs (Decidable (_ ∧ _))

/-- An address for a pair, from its salt. -/
def sampleCreate2 (salt : Bytes) : Address := ⟨⟨1000 + ofBigEndian salt % 1000, by omega⟩⟩

theorem sampleCreate2_ne {salt : Bytes} {n : Fin 1461501637330902918203684832716283019655932542976}
    (h : n.val < 1000) : sampleCreate2 salt ≠ ⟨n⟩ := by
  intro heq
  have hval : 1000 + ofBigEndian salt % 1000 = n.val := congrArg (fun a => a.index.val) heq
  omega

def sampleDeployment : Deployment :=
  { keccak256 := id, ecrecover := fun _ _ => .zero, chainid := 262144, create2 := sampleCreate2
    accepts := fun _ => true, router := ⟨100⟩, weth := ⟨101⟩, router_ne_zero := by decide
    router_ne_weth := by decide, create2_ne_zero := fun _ => sampleCreate2_ne (by decide)
    create2_ne_router := fun _ => sampleCreate2_ne (by decide)
    create2_ne_weth := fun _ => sampleCreate2_ne (by decide) }

def samplePoolOf (pair token0 token1 : Address) (h : pair ≠ .zero ∧ token0 ≠ .zero ∧
    token0 < token1 ∧ pair ≠ token0 ∧ pair ≠ token1) : Pool :=
  { pair, token0, token1, pair_ne_zero := h.1, token0_ne_zero := h.2.1, token0_lt_token1 := h.2.2.1
    pair_ne_token0 := h.2.2.2.1, pair_ne_token1 := h.2.2.2.2 }

def samplePool23 : Pool := samplePoolOf ⟨21⟩ ⟨2⟩ ⟨3⟩ (by decide)

def samplePool34 : Pool := samplePoolOf ⟨22⟩ ⟨3⟩ ⟨4⟩ (by decide)

/-- A pair of the token at three and the liquidity of the second pair. -/
def sampleLiquidityPool : Pool := samplePoolOf ⟨23⟩ ⟨3⟩ ⟨22⟩ (by decide)

/-- A token that the accounts hold in these amounts. The account at five has
approved the router. -/
def sampleHoldings (xs : List (Address × ℕ)) : ERC20 :=
  { totalSupply := (xs.map Prod.snd).sum
    balanceOf := xs.foldl (fun f x => Ledger.credit f x.1 x.2) (fun _ => 0)
    allowance := fun owner spender => if owner = ⟨5⟩ ∧ spender = ⟨100⟩ then 1000 else 0 }

theorem sampleHoldings_total (xs : List (Address × ℕ)) :
    Ledger.total (sampleHoldings xs).balanceOf = (xs.map Prod.snd).sum := by
  have hfold : ∀ (f : Address → ℕ), Ledger.total (xs.foldl (fun f x => Ledger.credit f x.1 x.2) f) =
      Ledger.total f + (xs.map Prod.snd).sum := by
    induction xs with
    | nil => simp
    | cons x xs ih =>
      intro f
      rw [List.foldl_cons, ih, Ledger.total_credit, List.map_cons, List.sum_cons, Nat.add_assoc]
  rw [sampleHoldings, hfold, Ledger.total_zero, Nat.zero_add]

/-- A pair with reserves of ten thousand. -/
def samplePair (pool : Pool) (liquidity : List (Address × ℕ)) : PairStorage :=
  { PairStorage.deployed id 262144 pool.pair with
    toERC20 := sampleHoldings liquidity, reserve0 := 10000, reserve1 := 10000 }

def sampleTokens : Chain :=
  (((Chain.initial ⟨9⟩).setContract ⟨2⟩
    (.token (sampleHoldings [(⟨21⟩, 10000), (⟨5⟩, 1000)]))).setContract
    ⟨3⟩ (.token (sampleHoldings [(⟨21⟩, 10000), (⟨22⟩, 10000), (⟨23⟩, 10000)]))).setContract
    ⟨4⟩ (.token (sampleHoldings [(⟨22⟩, 10000)]))

def samplePairs : Chain :=
  ((sampleTokens.setPair samplePool23 (samplePair samplePool23 [])).setPair samplePool34
    (samplePair samplePool34 [(⟨23⟩, 10000), (⟨5⟩, 1000)])).setPair sampleLiquidityPool
    (samplePair sampleLiquidityPool [])

/-- The three pairs, registered. -/
def sampleExchange : Chain :=
  { samplePairs with
    factory := ((samplePairs.factory.register ⟨2⟩ ⟨3⟩ ⟨21⟩).register ⟨3⟩ ⟨4⟩ ⟨22⟩).register
      ⟨3⟩ ⟨22⟩ ⟨23⟩ }

theorem sampleExchange_consistent : sampleExchange.Consistent := by
  have htotal : ∀ xs : List (Address × ℕ), (xs.map Prod.snd).sum ≤ 30000 →
      Ledger.total (sampleHoldings xs).balanceOf < uint256Size := by
    intro xs hle
    rw [sampleHoldings_total, uint256Size_eq]
    omega
  have htokens : sampleTokens.Consistent := by
    refine ((Chain.Consistent.setToken (Chain.initial_consistent ⟨9⟩) rfl ?_).setToken rfl
      ?_).setToken rfl ?_
    all_goals exact htotal _ (by decide)
  have hbounded : 10000 < 2 ^ 112 ∧ 10000 < 2 ^ 112 := by norm_num
  have hpairs : samplePairs.Consistent := by
    refine ((htokens.setPair samplePool23 rfl rfl hbounded ?_).setPair samplePool34 rfl rfl hbounded
      ?_).setPair sampleLiquidityPool rfl rfl hbounded ?_
    all_goals exact htotal _ (by decide)
  exact ((hpairs.register samplePool23 rfl).register samplePool34 rfl).register sampleLiquidityPool
    rfl

theorem forall_mem_hops {P : Address × Address → Prop} {a b c : Address} (hfirst : P (a, b))
    (hsecond : P (b, c)) : ∀ hop ∈ hops [a, b, c], P hop := by
  intro hop hhop
  have hcases : hop = (a, b) ∨ hop = (b, c) := by simpa [hops] using hhop
  rcases hcases with rfl | rfl
  · exact hfirst
  · exact hsecond

/-- A swap over two pairs. -/
theorem swapExactTokensForTokens_sample :
    ∃ c', Router.swapExactTokensForTokens sampleDeployment ⟨0, 1⟩ ⟨5⟩ 1000 800 [⟨2⟩, ⟨3⟩, ⟨4⟩] ⟨6⟩ 0
        sampleExchange = .ok ([1000, 906, 828], c') ∧
      c'.balanceOf ⟨2⟩ ⟨5⟩ + 1000 = sampleExchange.balanceOf ⟨2⟩ ⟨5⟩ ∧
      c'.balanceOf ⟨4⟩ ⟨6⟩ = sampleExchange.balanceOf ⟨4⟩ ⟨6⟩ + 828 := by
  have hamounts : getAmountsOut sampleExchange 1000 [⟨2⟩, ⟨3⟩, ⟨4⟩] = .ok [1000, 906, 828] := by
    decide +kernel
  have hallowed : 1000 ≤ sampleExchange.allowance ⟨2⟩ ⟨5⟩ sampleDeployment.router := by
    decide +kernel
  have hdeadline : Block.timestamp ⟨0, 1⟩ ≤ 0 := le_rfl
  have hdst : (⟨6⟩ : Address) ≠ ⟨5⟩ ∧ ⟨6⟩ ∉ [(⟨2⟩ : Address), ⟨3⟩, ⟨4⟩] ∧
      ⟨6⟩ ∉ sampleExchange.pools [⟨2⟩, ⟨3⟩, ⟨4⟩] := by decide +kernel
  have hseparate : ∀ x ∈ [(⟨2⟩ : Address), ⟨3⟩, ⟨4⟩].zip (hops [⟨3⟩, ⟨4⟩]),
      pairFor sampleExchange x.2.1 x.2.2 ≠ x.1 := by
    have hpair : pairFor sampleExchange ⟨3⟩ ⟨4⟩ ≠ ⟨2⟩ := by decide +kernel
    simpa [hops] using hpair
  obtain ⟨c', hrun, hpaid, hreceived, -⟩ := swapExactTokensForTokens_exact sampleExchange_consistent
    hamounts rfl rfl rfl (by decide) (by decide : 800 ≤ 828) hdeadline (by decide +kernel)
    (forall_mem_hops (by decide +kernel) (by decide +kernel)) (by decide +kernel)
    (by decide +kernel) (by decide +kernel) hallowed hdst
    hseparate
  exact ⟨c', hrun, hpaid, hreceived⟩

/-- A path over two pairs, of which the second is the token that the first takes in:
the first pair cannot pay its output there. -/
theorem swapExactTokensForTokens_invalid_to :
    let c := sampleExchange
    let path : List Address := [⟨22⟩, ⟨3⟩, ⟨4⟩]
    c.Consistent ∧ getAmountsOut c 1000 path = .ok [1000, 906, 828] ∧ 800 ≤ 828 ∧
      (c.pools path).Nodup ∧ (∀ hop ∈ hops path, c.Balanced hop) ∧
      (∀ x ∈ (hops path).zip [1000, 906, 828],
        c.reserve (pairFor c x.1.1 x.1.2) x.1.1 + x.2 < 2 ^ 112) ∧
      ⟨5⟩ ∉ c.pools path ∧ 1000 ≤ c.balanceOf ⟨22⟩ ⟨5⟩ ∧
      1000 ≤ c.allowance ⟨22⟩ ⟨5⟩ sampleDeployment.router ∧
      ((⟨6⟩ : Address) ≠ ⟨5⟩ ∧ ⟨6⟩ ∉ path ∧ ⟨6⟩ ∉ c.pools path) ∧
      Prod.fst <$> Router.swapExactTokensForTokens sampleDeployment ⟨0, 1⟩ ⟨5⟩ 1000 800 path ⟨6⟩ 0 c =
        .error (.error (ascii "UniswapV2: INVALID_TO")) := by
  refine ⟨sampleExchange_consistent, by decide +kernel, by decide, by decide +kernel, ?_, ?_⟩
  · exact forall_mem_hops (by decide +kernel) (by decide +kernel)
  · decide +kernel

end EnergyChain.Dex
