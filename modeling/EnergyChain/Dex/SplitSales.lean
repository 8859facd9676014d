import EnergyChain.Dex.PathQuotes
import EnergyChain.Dex.RouterSurplus

/-!
# Sales in parts

Every trade moves the price against the next one. A sale that is split over several
calls of the router, also from different accounts and in different blocks, gives the
recipient no more than one call for the whole amount.
-/

namespace EnergyChain.Dex

open Library

variable {d : Deployment} {block : Block} {c c₁ c' c'' : Chain}
  {sender dst input output first token : Address} {rest path : List Address}
  {amounts totals outs : List ℕ} {x y v : ℕ}

theorem getLast_zipWith_add {as bs : List ℕ} (hlength : as.length = bs.length)
    (ha : as.getLast? = some x) (hb : bs.getLast? = some y) :
    (List.zipWith (· + ·) as bs).getLast? = some (x + y) := by
  rw [List.getLast?_eq_getElem?] at ha hb ⊢
  rw [List.length_zipWith, ← hlength, Nat.min_self, List.getElem?_zipWith, ha, hlength, hb]

namespace Chain

/-! ### What swaps leave alone -/

theorem swap_cons_ok (h : Router.swap block dst amounts (input :: output :: rest) c = .ok c') :
    ∃ y as token0 token1 c₁, amounts = y :: as ∧ sortTokens input output = .ok (token0, token1) ∧
      Router.swapPair block (pairFor c input output) input token0 y
        (Router.nextHolder c output rest dst) c = .ok c₁ ∧
      Router.swap block dst as (output :: rest) c₁ = .ok c' := by
  cases amounts with
  | nil =>
    simp only [Router.swap, except_bind_ok_iff] at h
    obtain ⟨_, -, _, hindex, -⟩ := h
    cases hindex
  | cons y as =>
    obtain ⟨token0, token1, c₁, hsort, hrun, hrest⟩ := swap_cons_ok_iff.mp h
    exact ⟨y, as, token0, token1, c₁, rfl, hsort, hrun, hrest⟩

/-- The chain after the swaps of a path has the same pairs, and other accounts than
the pairs and the recipient hold what they held. -/
structure Elsewhere (path : List Address) (dst : Address) (c c' : Chain) : Prop where
  factory : c'.factory = c.factory
  poolAt : c'.poolAt = c.poolAt
  pairView : ∀ p ∉ c.pools path, c'.pairView p = c.pairView p
  balanceOf : ∀ p ∉ c.pools path, p ≠ dst → ∀ t, c'.balanceOf t p = c.balanceOf t p

theorem swap_elsewhere (hregistered : c.Registered)
    (h : Router.swap block dst amounts (input :: output :: rest) c = .ok c') :
    Elsewhere (input :: output :: rest) dst c c' := by
  induction rest generalizing c input output amounts with
  | nil =>
    obtain ⟨y, as, token0, token1, c₁, rfl, hsort, hrun, hdone⟩ := swap_cons_ok h
    obtain rfl := Except.ok.inj hdone
    obtain ⟨view, -, hswapped⟩ := swapPair_swapped hregistered hsort hrun
    constructor
    · exact hswapped.moved.factory
    · exact hswapped.poolAt
    · intro p hp
      apply hswapped.pairView_of_ne
      rintro rfl
      exact hp List.mem_cons_self
    · intro p hp hdst t
      apply hswapped.moved.balanceOf_owner _ hdst
      rintro rfl
      exact hp List.mem_cons_self
  | cons next rest ih =>
    obtain ⟨y, as, token0, token1, c₁, rfl, hsort, hrun, hrest⟩ := swap_cons_ok h
    obtain ⟨view, -, hswapped⟩ := swapPair_swapped hregistered hsort hrun
    have hfactory := hswapped.moved.factory
    have hpools := pools_congr hfactory (output :: next :: rest)
    have hleft := ih (hswapped.registered hregistered) hrest
    constructor
    · exact hleft.factory.trans hfactory
    · exact hleft.poolAt.trans hswapped.poolAt
    · intro p hp
      rw [pools_cons, List.mem_cons, not_or] at hp
      rw [hleft.pairView p (hpools ▸ hp.2), hswapped.pairView_of_ne hp.1]
    · intro p hp hdst t
      rw [pools_cons, List.mem_cons, not_or] at hp
      rw [hleft.balanceOf p (hpools ▸ hp.2) hdst, hswapped.moved.balanceOf_owner hp.1]
      rintro rfl
      exact hp.2 List.mem_cons_self

/-! ### What the pairs of a path have traded -/

/-- The pair has taken `x` of the first token and given `y` of the second, which is
no more than the library says for all of it, and is at rest. -/
structure HopSold (c c' : Chain) (hop : Address × Address) (x y : ℕ) : Prop where
  balanced : c'.Balanced hop
  positive : 0 < c.reserve (pairFor c hop.1 hop.2) hop.1
  taken : c'.reserve (pairFor c hop.1 hop.2) hop.1 = c.reserve (pairFor c hop.1 hop.2) hop.1 + x
  given : c'.reserve (pairFor c hop.1 hop.2) hop.2 + y = c.reserve (pairFor c hop.1 hop.2) hop.2
  le : y ≤ ConstantProduct.amountOut 997 1000 x (c.reserve (pairFor c hop.1 hop.2) hop.1)
    (c.reserve (pairFor c hop.1 hop.2) hop.2)

/-- What each pair of the path has given is what the next one has taken. -/
inductive Sold (c c' : Chain) : List Address → List ℕ → Prop
  | last (token : Address) (x : ℕ) : Sold c c' [token] [x]
  | hop {input output : Address} {rest : List Address} {x y : ℕ} {amounts : List ℕ}
      (sold : HopSold c c' (input, output) x y)
      (rest_sold : Sold c c' (output :: rest) (y :: amounts)) :
      Sold c c' (input :: output :: rest) (x :: y :: amounts)

theorem HopSold.trans {hop : Address × Address} {x' y' : ℕ} (h : HopSold c c₁ hop x y)
    (h' : HopSold c₁ c' hop x' y') (hfactory : c₁.factory = c.factory) :
    HopSold c c' hop (x + x') (y + y') := by
  have hpair : pairFor c₁ hop.1 hop.2 = pairFor c hop.1 hop.2 := by
    rw [pairFor, pairFor, hfactory]
  obtain ⟨hbalanced, -, htaken', hgiven', hle'⟩ := h'
  rw [hpair] at htaken' hgiven' hle'
  have hgiven : c₁.reserve (pairFor c hop.1 hop.2) hop.2 =
      c.reserve (pairFor c hop.1 hop.2) hop.2 - y := Nat.eq_sub_of_add_eq h.given
  rw [h.taken, hgiven] at hle'
  refine ⟨hbalanced, h.positive, ?_, ?_, ?_⟩
  · rw [htaken', h.taken, Nat.add_assoc]
  · rw [← h.given, ← hgiven', Nat.add_assoc, Nat.add_comm y y']
  · have hpos := h.positive
    exact ConstantProduct.add_le_amountOut (by decide) (by omega) h.le hle'

theorem Sold.trans (h : Sold c c₁ path amounts) (h' : Sold c₁ c' path totals)
    (hfactory : c₁.factory = c.factory) :
    Sold c c' path (List.zipWith (· + ·) amounts totals) := by
  induction h generalizing totals with
  | last token x =>
    cases h' with
    | last _ x' => exact .last token (x + x')
  | @hop input output rest x y amounts hsold hrest ih =>
    cases h' with
    | hop hsold' hrest' => exact .hop (hsold.trans hsold' hfactory) (ih hrest')

theorem Sold.congr (h : Sold c₁ c' path amounts) (hfactory : c₁.factory = c.factory)
    (hview : ∀ p ∈ c.pools path, c₁.pairView p = c.pairView p) : Sold c c' path amounts := by
  induction h with
  | last token x => exact .last token x
  | @hop input output rest x y amounts hsold hrest ih =>
    rw [pools_cons] at hview
    have hpair : pairFor c₁ input output = pairFor c input output := by
      rw [pairFor, pairFor, hfactory]
    have hsame := reserve_congr (hview _ List.mem_cons_self)
    obtain ⟨hbalanced, hpos, htaken, hgiven, hle⟩ := hsold
    simp only [hpair, hsame] at hpos htaken hgiven hle
    exact .hop ⟨hbalanced, hpos, htaken, hgiven, hle⟩
      (ih fun p hp => hview p (List.mem_cons_of_mem _ hp))

theorem Sold.balanced (h : Sold c c' path amounts) : ∀ hop ∈ hops path, c'.Balanced hop := by
  induction h with
  | last token x => simp [hops]
  | hop hsold hrest ih =>
    intro hop hhop
    rw [hops_cons, List.mem_cons] at hhop
    rcases hhop with rfl | hhop
    · exact hsold.balanced
    · exact ih hop hhop

/-- One trade at the reserves of the start gives no less than all that was sold. -/
theorem Sold.le_amountsOut (h : Sold c c' path (x :: amounts)) (hregistered : c.Registered)
    (hout : amountsOutFrom c x path = .ok outs) : List.Forall₂ (· ≤ ·) (x :: amounts) outs := by
  suffices hmore : ∀ x', x ≤ x' → amountsOutFrom c x' path = .ok outs →
      List.Forall₂ (· ≤ ·) (x :: amounts) outs from hmore x le_rfl hout
  clear hout
  generalize has : x :: amounts = as at h
  induction h generalizing x amounts outs with
  | last token z =>
    intro x' hle hout
    obtain ⟨rfl, rfl⟩ := List.cons.inj has
    obtain rfl := Except.ok.inj hout
    exact .cons hle .nil
  | @hop input output rest z y as hsold hrest ih =>
    intro x' hle hout
    obtain ⟨rfl, rfl⟩ := List.cons.inj has
    obtain ⟨r, s, y', os, hreserves, hy', hos, rfl⟩ := amountsOutFrom_cons hout
    obtain ⟨view, -, -, hview, -, -, hr, hs⟩ := getReserves_ok hregistered hreserves
    obtain ⟨-, hr₀, -, rfl⟩ := getAmountOut_ok hy'
    have hbound := hsold.le
    simp only [reserve_eq hview, hr, hs] at hbound
    have hmore := ConstantProduct.amountOut_mono (n := 997) (s := s) (by omega : 0 < r * 1000) hle
    exact .cons hle (ih rfl _ (hbound.trans hmore) hos)

/-! ### A sale -/

theorem quoted_of_found {view : PairView} {r s : ℕ} (hregistered : c.Registered)
    (hfound : c.pairView (pairFor c input output) = some view)
    (hreserves : Library.getReserves c input output = .ok (r, s))
    (hy : getAmountOut x r s = .ok y) : 0 < view.reserve input ∧
      y = ConstantProduct.amountOut 997 1000 x (view.reserve input) (view.reserve output) := by
  rw [getReserves_pairView hregistered hfound] at hreserves
  obtain ⟨rfl, rfl⟩ := Prod.mk.inj (Except.ok.inj hreserves)
  obtain ⟨-, hr, -, heq⟩ := getAmountOut_ok hy
  exact ⟨hr, heq⟩

theorem PairSwapped.hopSold {holder : Address} {view : PairView}
    (h : PairSwapped (pairFor c input output) output holder y view c c')
    (htrades : view.pool.Trades input output) (hloaded : c.Loaded (input, output) x)
    (hholder : holder ≠ pairFor c input output) (hr : 0 < view.reserve input)
    (hy : y ≤ ConstantProduct.amountOut 997 1000 x (view.reserve input) (view.reserve output)) :
    HopSold c c' (input, output) x y := by
  have hpair : pairFor c' input output = pairFor c input output := by
    rw [pairFor, pairFor, h.moved.factory]
  have htoken : ∀ token, token = input ∨ token = output →
      c'.reserve (pairFor c input output) token = c'.balanceOf token (pairFor c input output) := by
    intro token htoken
    apply h.reserve_token
    rcases htrades with ⟨h₀, h₁⟩ | ⟨h₀, h₁⟩ <;> rcases htoken with rfl | rfl <;> simp [h₀, h₁]
  have hin := htoken input (Or.inl rfl)
  have hout := htoken output (Or.inr rfl)
  have hle := h.moved.le
  have hreserve := reserve_eq h.found
  rw [hloaded.2] at hle
  constructor
  · simp only [Balanced, hpair]
    exact ⟨hin.symm, hout.symm⟩
  · rw [hreserve]
    exact hr
  · rw [hin, h.moved.balanceOf_of_ne htrades.ne, hloaded.1]
  · rw [hout, h.moved.balanceOf_token, Ledger.move_source hholder.symm, hloaded.2]
    exact Nat.sub_add_cancel hle
  · rw [hreserve, hreserve]
    exact hy

theorem HopSold.elsewhere {hop : Address × Address} (h : HopSold c c₁ hop x y)
    (hfactory : c₁.factory = c.factory) (hleft : Elsewhere path dst c₁ c')
    (hpath : pairFor c hop.1 hop.2 ∉ c₁.pools path) (hdst : pairFor c hop.1 hop.2 ≠ dst) :
    HopSold c c' hop x y := by
  have hpair : pairFor c₁ hop.1 hop.2 = pairFor c hop.1 hop.2 := by
    rw [pairFor, pairFor, hfactory]
  have hpair' : pairFor c' hop.1 hop.2 = pairFor c hop.1 hop.2 := by
    rw [pairFor, pairFor, hleft.factory, hfactory]
  have hreserve := reserve_congr (hleft.pairView _ hpath)
  obtain ⟨hbalanced, hpos, htaken, hgiven, hle⟩ := h
  refine ⟨?_, hpos, ?_, ?_, hle⟩
  · simp only [Balanced, hpair, hpair', hreserve, hleft.balanceOf _ hpath hdst] at hbalanced ⊢
    exact hbalanced
  · rw [hreserve, htaken]
  · rw [hreserve, hgiven]

/-- What the swaps of a path have sold, by induction on the path. -/
theorem swap_sold (hregistered : c.Registered)
    (hnodup : (c.pools (input :: output :: rest)).Nodup)
    (hdst : dst ∉ c.pools (input :: output :: rest)) (hloaded : c.Loaded (input, output) x)
    (hbalanced : ∀ hop ∈ hops (output :: rest), c.Balanced hop)
    (hquote : amountsOutFrom c x (input :: output :: rest) = .ok (x :: amounts))
    (h : Router.swap block dst amounts (input :: output :: rest) c = .ok c') :
    Sold c c' (input :: output :: rest) (x :: amounts) := by
  induction rest generalizing c input output x amounts with
  | nil =>
    obtain ⟨y, as, token0, token1, c₁, rfl, hsort, hrun, hdone⟩ := swap_cons_ok h
    obtain rfl := Except.ok.inj hdone
    obtain ⟨r, s, y', hreserves, hy, has⟩ := amountsOutFrom_cons_iff.mp hquote
    obtain ⟨rfl, rfl⟩ := List.cons.inj (Except.ok.inj has)
    obtain ⟨view, htrades, hswapped⟩ := swapPair_swapped hregistered hsort hrun
    obtain ⟨hr, hamount⟩ := quoted_of_found hregistered hswapped.found hreserves hy
    have hholder : dst ≠ pairFor c input output := fun heq => hdst (heq ▸ List.mem_cons_self)
    exact .hop (hswapped.hopSold htrades hloaded hholder hr hamount.le) (.last output _)
  | cons next rest ih =>
    obtain ⟨y, as, token0, token1, c₁, rfl, hsort, hrun, hrest⟩ := swap_cons_ok h
    obtain ⟨r, s, y', hreserves, hy, has⟩ := amountsOutFrom_cons_iff.mp hquote
    obtain ⟨as, hcons⟩ := amountsOutFrom_head has
    obtain ⟨rfl, rfl⟩ := List.cons.inj hcons
    obtain ⟨view, htrades, hswapped⟩ := swapPair_swapped hregistered hsort hrun
    obtain ⟨hr, hamount⟩ := quoted_of_found hregistered hswapped.found hreserves hy
    have hfactory := hswapped.moved.factory
    have hregistered₁ := hswapped.registered hregistered
    have hview : ∀ p ∈ c.pools (output :: next :: rest), c₁.pairView p = c.pairView p := by
      intro p hp
      apply hswapped.pairView_of_ne
      rintro rfl
      exact (List.nodup_cons.mp hnodup).1 hp
    obtain ⟨hloaded₁, hbalanced₁⟩ :=
      loaded_next hnodup hswapped (amountsOutFrom_ne has) hbalanced
    have hpools := pools_congr hfactory (output :: next :: rest)
    rw [pools_cons, List.nodup_cons] at hnodup
    rw [pools_cons, List.mem_cons, not_or] at hdst
    have hsold := ih hregistered₁ (hpools ▸ hnodup.2) (hpools ▸ hdst.2) hloaded₁ hbalanced₁
      ((amountsOutFrom_congr hfactory hview).trans has) hrest
    have hholder : pairFor c output next ≠ pairFor c input output := by
      intro heq
      exact hnodup.1 (heq ▸ List.mem_cons_self)
    have hfirst := hswapped.hopSold htrades hloaded hholder hr hamount.le
    exact .hop (hfirst.elsewhere hfactory (swap_elsewhere hregistered₁ hrest) (hpools ▸ hnodup.1)
      (Ne.symm hdst.1)) (hsold.congr hfactory hview)

theorem Sold.length_eq (h : Sold c c' path amounts) : amounts.length = path.length := by
  induction h with
  | last token x => rfl
  | hop hsold hrest ih => simpa using ih

end Chain

/-! ### Sales of one amount after the other -/

/-- A call of `swapExactTokensForTokens`, apart from its path and recipient. -/
structure Sale where
  block : Block
  sender : Address
  amountIn : ℕ
  amountOutMin : ℕ
  deadline : ℕ

def Sale.execute (d : Deployment) (path : List Address) (dst : Address) (c : Chain) (sale : Sale) :
    Except Revert Chain :=
  Prod.snd <$> Router.swapExactTokensForTokens d sale.block sale.sender sale.amountIn
    sale.amountOutMin path dst sale.deadline c

/-- What calls have sold along a path, and that the recipient has got what came out. -/
structure SoldTo (path : List Address) (token dst : Address) (amountIn : ℕ) (amounts : List ℕ)
    (c c' : Chain) : Prop where
  sold : Chain.Sold c c' path (amountIn :: amounts)
  factory : c'.factory = c.factory
  poolAt : c'.poolAt = c.poolAt
  received : ∃ amountOut, (amountIn :: amounts).getLast? = some amountOut ∧
    c'.balanceOf token dst = c.balanceOf token dst + amountOut

section Sales

variable {sale : Sale} {sales : List Sale}

theorem execute_soldTo (hregistered : c.Registered) (hnodup : (c.pools path).Nodup)
    (hbalanced : ∀ hop ∈ hops path, c.Balanced hop) (hsender : sale.sender ∉ c.pools path)
    (hdst : dst ∉ c.pools path) (hfirst : path.head? = some first)
    (htoken : path.getLast? = some token) (hne : first ≠ token)
    (h : sale.execute d path dst c = .ok c') :
    ∃ amounts, amountsOutFrom c sale.amountIn path = .ok (sale.amountIn :: amounts) ∧
      SoldTo path token dst sale.amountIn amounts c c' := by
  obtain ⟨⟨_, _⟩, hcall, rfl⟩ := except_map_ok_iff.mp h
  simp only [Router.swapExactTokensForTokens, except_bind_ok_iff, except_pure_ok_iff,
    Prod.mk.injEq] at hcall
  obtain ⟨-, -, amounts, hquote, -, -, -, -, paid, hpaid, c₁, hpay, c₂, hswap, rfl, rfl⟩ := hcall
  obtain ⟨first', output, rest, rfl, hmoved, hview⟩ := Chain.payFirst_moved hpay
  obtain rfl := Option.some.inj hfirst
  obtain rfl := Chain.getAmountsOut_first hquote hpaid
  have hreceived := hmoved.paid hview List.mem_cons_self hsender
  have hamounts := Chain.getAmountsOut_cons_iff.mp hquote
  obtain ⟨amounts, rfl⟩ := Chain.amountsOutFrom_head hamounts
  obtain ⟨amountOut, hlast, -, hgain⟩ := hreceived.swap_gains hregistered hdst
    (Router.last_ok_iff.mpr htoken) hquote hswap
  have hregistered₁ := hreceived.registered hregistered
  obtain ⟨hloaded, hbalanced₁⟩ :=
    hreceived.loads hnodup (Chain.amountsOutFrom_ne hamounts) hbalanced
  have hpools := Chain.pools_congr hreceived.factory (first' :: output :: rest)
  have hsold := Chain.swap_sold hregistered₁ (hpools ▸ hnodup) (hpools ▸ hdst) hloaded hbalanced₁
    ((hreceived.amountsOutFrom_eq _).trans hamounts) hswap
  have hleft := Chain.swap_elsewhere hregistered₁ hswap
  refine ⟨amounts, hamounts, ?_⟩
  constructor
  · exact hsold.congr hreceived.factory fun p _ => congrFun hreceived.pairView p
  · exact hleft.factory.trans hreceived.factory
  · exact hleft.poolAt.trans (poolAt_congr hreceived.pairView)
  · refine ⟨amountOut, Router.last_ok_iff.mp hlast, ?_⟩
    rw [hgain, hmoved.balanceOf_of_ne hne.symm]

theorem SoldTo.trans {totals : List ℕ} {v : ℕ} (h : SoldTo path token dst x amounts c c₁)
    (h' : SoldTo path token dst v totals c₁ c') :
    SoldTo path token dst (x + v) (List.zipWith (· + ·) amounts totals) c c' := by
  obtain ⟨y, hy, hreceived⟩ := h.received
  obtain ⟨z, hz, hreceived'⟩ := h'.received
  constructor
  · exact h.sold.trans h'.sold h.factory
  · exact h'.factory.trans h.factory
  · exact h'.poolAt.trans h.poolAt
  · refine ⟨y + z, ?_, ?_⟩
    · apply getLast_zipWith_add _ hy hz
      rw [h.sold.length_eq, h'.sold.length_eq]
    · rw [hreceived', hreceived, Nat.add_assoc]

/-- Any number of sales together, by induction on the sales. -/
theorem sales_soldTo (hregistered : c.Registered) (hnodup : (c.pools path).Nodup)
    (hbalanced : ∀ hop ∈ hops path, c.Balanced hop)
    (hsenders : ∀ s ∈ sale :: sales, s.sender ∉ c.pools path) (hdst : dst ∉ c.pools path)
    (hfirst : path.head? = some first) (htoken : path.getLast? = some token) (hne : first ≠ token)
    (h : (sale :: sales).foldlM (Sale.execute d path dst) c = .ok c') :
    ∃ totals, SoldTo path token dst ((sale :: sales).map Sale.amountIn).sum totals c c' := by
  induction sales generalizing c sale with
  | nil =>
    rw [List.foldlM_cons, except_bind_ok_iff] at h
    obtain ⟨c₁, hsale, hdone⟩ := h
    obtain rfl := Except.ok.inj hdone
    obtain ⟨amounts, -, hsold⟩ := execute_soldTo hregistered hnodup hbalanced
      (hsenders sale List.mem_cons_self) hdst hfirst htoken hne hsale
    exact ⟨amounts, by simpa using hsold⟩
  | cons next sales ih =>
    rw [List.foldlM_cons, except_bind_ok_iff] at h
    obtain ⟨c₁, hsale, hrest⟩ := h
    obtain ⟨amounts, -, hsold⟩ := execute_soldTo hregistered hnodup hbalanced
      (hsenders sale List.mem_cons_self) hdst hfirst htoken hne hsale
    have hpools := Chain.pools_congr hsold.factory path
    obtain ⟨totals, htotals⟩ := ih (registered_congr hsold.factory hsold.poolAt hregistered)
      (hpools ▸ hnodup) hsold.sold.balanced
      (fun s hs => hpools ▸ hsenders s (List.mem_cons_of_mem _ hs)) (hpools ▸ hdst) hrest
    exact ⟨_, by simpa using hsold.trans htotals⟩

end Sales
end EnergyChain.Dex
