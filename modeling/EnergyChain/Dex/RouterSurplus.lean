import EnergyChain.Dex.RouterEmptied

/-!
# Swaps of what has arrived

The entry points for tokens that take a fee compute each amount on the way, from
what the pair has above its reserves. A standard token arrives in full, so that
they do what the entry points with amounts computed beforehand do.
-/

namespace EnergyChain.Dex

open Library

variable {d : Deployment} {block : Block} {c c₁ c' : Chain}
  {sender dst input output token pair : Address} {rest path : List Address}
  {amounts : List ℕ} {x v : ℕ}

theorem Router.exists_last {α : Type} {xs : List α} (h : xs ≠ []) : ∃ z, Router.last xs = .ok z :=
  ⟨_, Router.last_ok_iff.mpr (List.getLast?_eq_some_getLast h)⟩

namespace Chain

/-! ### One swap -/

theorem swapSurplus_eq {token0 token1 : Address} {r s : ℕ} (hregistered : c.Registered)
    (hloaded : c.Loaded (input, output) x)
    (hreserves : Library.getReserves c input output = .ok (r, s))
    (hsort : sortTokens input output = .ok (token0, token1)) :
    Router.swapSurplus block input output dst c = (do
      let y ← getAmountOut x r s
      Router.swapPair block (pairFor c input output) input token0 y dst c) := by
  obtain ⟨view, -, -, hview, -, -, hr, -⟩ := getReserves_ok hregistered hreserves
  have hin : c.balanceOf input (pairFor c input output) = r + x := by
    rw [hloaded.1, reserve_eq hview, hr]
  simp only [Library.getReserves, hsort, except_ok_bind, except_bind_ok_iff,
    except_pure_ok_iff] at hreserves
  obtain ⟨⟨reserve0, reserve1⟩, hget, hordered⟩ := hreserves
  have hsurplus : checkedSub (r + x) r = .ok x := by
    rw [checkedSub_ok_iff]
    omega
  simp only [Router.swapSurplus, hsort, except_ok_bind, hget, hordered, hin, hsurplus]

theorem swapSurplus_ok_iff (hregistered : c.Registered) (hloaded : c.Loaded (input, output) x) :
    Router.swapSurplus block input output dst c = .ok c' ↔
      ∃ r s y token0 token1, Library.getReserves c input output = .ok (r, s) ∧
        getAmountOut x r s = .ok y ∧ sortTokens input output = .ok (token0, token1) ∧
        Router.swapPair block (pairFor c input output) input token0 y dst c = .ok c' := by
  constructor
  · intro h
    have hread := h
    simp only [Router.swapSurplus, except_bind_ok_iff] at hread
    obtain ⟨⟨token0, token1⟩, hsort, ⟨reserve0, reserve1⟩, hget, -⟩ := hread
    have hreserves : Library.getReserves c input output =
        .ok (inOrder input token0 reserve0 reserve1) := by
      simp only [Library.getReserves, hsort, hget, except_ok_bind]
      rfl
    rw [swapSurplus_eq hregistered hloaded hreserves hsort, except_bind_ok_iff] at h
    obtain ⟨y, hy, hrun⟩ := h
    exact ⟨_, _, y, token0, token1, hreserves, hy, hsort, hrun⟩
  · rintro ⟨r, s, y, token0, token1, hreserves, hy, hsort, hrun⟩
    rw [swapSurplus_eq hregistered hloaded hreserves hsort, hy]
    exact hrun

theorem PairSwapped.registered {y : ℕ} {view : PairView}
    (h : PairSwapped pair output dst y view c c') (hregistered : c.Registered) : c'.Registered :=
  registered_congr h.moved.factory h.poolAt hregistered

/-! ### All swaps of a path -/

theorem amountsOutFrom_cons_iff {as : List ℕ} :
    amountsOutFrom c x (input :: output :: rest) = .ok (x :: as) ↔
      ∃ r s y, Library.getReserves c input output = .ok (r, s) ∧ getAmountOut x r s = .ok y ∧
        amountsOutFrom c y (output :: rest) = .ok as := by
  constructor
  · intro h
    obtain ⟨r, s, y, amounts, hreserves, hy, hrest, hcons⟩ := amountsOutFrom_cons h
    obtain rfl := (List.cons.inj hcons).2
    exact ⟨r, s, y, hreserves, hy, hrest⟩
  · rintro ⟨r, s, y, hreserves, hy, hrest⟩
    simp only [amountsOutFrom, hreserves, hy, hrest, except_ok_bind]
    rfl

theorem getAmountsOut_cons_iff :
    getAmountsOut c x (input :: output :: rest) = .ok amounts ↔
      amountsOutFrom c x (input :: output :: rest) = .ok amounts := by
  simp [getAmountsOut, require]

theorem getAmountsOut_first {y : ℕ} (h : getAmountsOut c x path = .ok amounts)
    (hfirst : index amounts 0 = .ok y) : y = x := by
  simp only [getAmountsOut, except_bind_ok_iff] at h
  obtain ⟨-, -, h⟩ := h
  obtain ⟨amounts, rfl⟩ := amountsOutFrom_head h
  exact (Except.ok.inj hfirst).symm

theorem swap_cons_ok_iff {y : ℕ} :
    Router.swap block dst (y :: amounts) (input :: output :: rest) c = .ok c' ↔
      ∃ token0 token1 c₁, sortTokens input output = .ok (token0, token1) ∧
        Router.swapPair block (pairFor c input output) input token0 y
          (Router.nextHolder c output rest dst) c = .ok c₁ ∧
        Router.swap block dst amounts (output :: rest) c₁ = .ok c' := by
  constructor
  · intro h
    simp only [Router.swap, index, List.getElem?_cons_zero, except_ok_bind, except_bind_ok_iff,
      List.tail_cons] at h
    obtain ⟨⟨token0, token1⟩, hsort, c₁, hrun, hrest⟩ := h
    exact ⟨token0, token1, c₁, hsort, hrun, hrest⟩
  · rintro ⟨token0, token1, c₁, hsort, hrun, hrest⟩
    rw [swap_cons hsort hrun]
    exact hrest

theorem getReserves_ne {r : ℕ × ℕ} (h : Library.getReserves c input output = .ok r) :
    input ≠ output := by
  simp only [Library.getReserves, sortTokens, except_bind_ok_iff, require_ok_iff] at h
  obtain ⟨-, ⟨-, hne, -⟩, -⟩ := h
  exact hne

theorem amountsOutFrom_ne {as : List ℕ}
    (h : amountsOutFrom c x (input :: output :: rest) = .ok as) : input ≠ output := by
  obtain ⟨r, s, -, -, hreserves, -⟩ := amountsOutFrom_cons h
  exact getReserves_ne hreserves

theorem swapSupportingFeeOnTransferTokens_ne
    (h : Router.swapSupportingFeeOnTransferTokens block dst (input :: output :: rest) c = .ok c') :
    input ≠ output := by
  simp only [Router.swapSupportingFeeOnTransferTokens, Router.swapSurplus, sortTokens,
    except_bind_ok_iff, require_ok_iff] at h
  obtain ⟨-, ⟨-, ⟨-, hne, -⟩, -⟩, -⟩ := h
  exact hne

/-- What the first swap of a path leaves is a chain from which the rest can be swapped, with
the quotes as they were. -/
theorem swapPair_leaves {next token0 token1 : Address} {y : ℕ} (hregistered : c.Registered)
    (hnodup : (c.pools (input :: output :: next :: rest)).Nodup)
    (hbalanced : ∀ hop ∈ hops (output :: next :: rest), c.Balanced hop) (hne : output ≠ next)
    (hsort : sortTokens input output = .ok (token0, token1))
    (hrun : Router.swapPair block (pairFor c input output) input token0 y
      (pairFor c output next) c = .ok c') :
    c'.Registered ∧ (c'.pools (output :: next :: rest)).Nodup ∧ c'.Loaded (output, next) y ∧
      (∀ hop ∈ hops (next :: rest), c'.Balanced hop) ∧
      amountsOutFrom c' y (output :: next :: rest) = amountsOutFrom c y (output :: next :: rest) := by
  obtain ⟨view, -, hswapped⟩ := swapPair_swapped hregistered hsort hrun
  obtain ⟨hloaded, hbalanced'⟩ := loaded_next hnodup hswapped hne hbalanced
  have hfactory := hswapped.moved.factory
  have hview : ∀ p ∈ c.pools (output :: next :: rest), c'.pairView p = c.pairView p := by
    intro p hp
    apply hswapped.pairView_of_ne
    rintro rfl
    exact (List.nodup_cons.mp hnodup).1 hp
  refine ⟨hswapped.registered hregistered, ?_, hloaded, hbalanced',
    amountsOutFrom_congr hfactory hview⟩
  rw [pools_congr hfactory]
  exact (List.nodup_cons.mp hnodup).2

/-- By induction on the path: after a swap the next pair is loaded with the amount
that was computed for it. -/
theorem swapSupportingFeeOnTransferTokens_ok_iff (hregistered : c.Registered)
    (hnodup : (c.pools (input :: output :: rest)).Nodup) (hloaded : c.Loaded (input, output) x)
    (hbalanced : ∀ hop ∈ hops (output :: rest), c.Balanced hop) :
    Router.swapSupportingFeeOnTransferTokens block dst (input :: output :: rest) c = .ok c' ↔
      ∃ amounts, amountsOutFrom c x (input :: output :: rest) = .ok (x :: amounts) ∧
        Router.swap block dst amounts (input :: output :: rest) c = .ok c' := by
  induction rest generalizing c input output x with
  | nil =>
    simp only [Router.swapSupportingFeeOnTransferTokens, except_bind_ok_iff,
      swapSurplus_ok_iff hregistered hloaded, amountsOutFrom_cons_iff, Router.nextHolder]
    constructor
    · rintro ⟨c₁, ⟨r, s, y, token0, token1, hreserves, hy, hsort, hrun⟩, hlast⟩
      exact ⟨[y], ⟨r, s, y, hreserves, hy, rfl⟩,
        swap_cons_ok_iff.mpr ⟨token0, token1, c₁, hsort, hrun, hlast⟩⟩
    · rintro ⟨amounts, ⟨r, s, y, hreserves, hy, hamounts⟩, hswap⟩
      obtain rfl := Except.ok.inj hamounts
      obtain ⟨token0, token1, c₁, hsort, hrun, hlast⟩ := swap_cons_ok_iff.mp hswap
      exact ⟨c₁, ⟨r, s, y, token0, token1, hreserves, hy, hsort, hrun⟩, hlast⟩
  | cons next rest ih =>
    have hnext : ∀ {token0 token1 : Address} {y : ℕ} {c₁ : Chain}, output ≠ next →
        sortTokens input output = .ok (token0, token1) →
        Router.swapPair block (pairFor c input output) input token0 y
          (pairFor c output next) c = .ok c₁ →
        (Router.swapSupportingFeeOnTransferTokens block dst (output :: next :: rest) c₁ = .ok c' ↔
          ∃ amounts, amountsOutFrom c y (output :: next :: rest) = .ok (y :: amounts) ∧
            Router.swap block dst amounts (output :: next :: rest) c₁ = .ok c') := by
      intro token0 token1 y c₁ hne hsort hrun
      obtain ⟨hregistered₁, hnodup₁, hloaded₁, hbalanced₁, hquote⟩ :=
        swapPair_leaves hregistered hnodup hbalanced hne hsort hrun
      rw [ih hregistered₁ hnodup₁ hloaded₁ hbalanced₁, hquote]
    rw [Router.swapSupportingFeeOnTransferTokens, except_bind_ok_iff]
    simp only [swapSurplus_ok_iff hregistered hloaded, amountsOutFrom_cons_iff, Router.nextHolder]
    constructor
    · rintro ⟨c₁, ⟨r, s, y, token0, token1, hreserves, hy, hsort, hrun⟩, hrest⟩
      have hne := swapSupportingFeeOnTransferTokens_ne hrest
      obtain ⟨amounts, hamounts, hswap⟩ := (hnext hne hsort hrun).mp hrest
      exact ⟨y :: amounts, ⟨r, s, y, hreserves, hy, hamounts⟩,
        swap_cons_ok_iff.mpr ⟨token0, token1, c₁, hsort, hrun, hswap⟩⟩
    · rintro ⟨amounts, ⟨r, s, y, hreserves, hy, hamounts⟩, hswap⟩
      obtain ⟨amounts, rfl⟩ := amountsOutFrom_head hamounts
      obtain ⟨token0, token1, c₁, hsort, hrun, hrest⟩ := swap_cons_ok_iff.mp hswap
      have hne := amountsOutFrom_ne hamounts
      exact ⟨c₁, ⟨r, s, y, token0, token1, hreserves, hy, hsort, hrun⟩,
        (hnext hne hsort hrun).mpr ⟨amounts, hamounts, hrest⟩⟩

theorem swap_received {amountOut : ℕ} (hregistered : c.Registered)
    (hdst : dst ∉ c.pools (input :: output :: rest))
    (hlength : amounts.length = (output :: rest).length)
    (hlast : amounts.getLast? = some amountOut)
    (htoken : (output :: rest).getLast? = some token)
    (h : Router.swap block dst amounts (input :: output :: rest) c = .ok c') :
    c'.balanceOf token dst = c.balanceOf token dst + amountOut := by
  induction rest generalizing c input output amounts with
  | nil =>
    obtain ⟨y, rfl⟩ := List.length_eq_one_iff.mp hlength
    obtain rfl : y = amountOut := by simpa using hlast
    obtain rfl : output = token := by simpa using htoken
    obtain ⟨token0, token1, c₁, hsort, hrun, hdone⟩ := swap_cons_ok_iff.mp h
    obtain rfl := Except.ok.inj hdone
    obtain ⟨view, -, hswapped⟩ := swapPair_swapped hregistered hsort hrun
    have hne : pairFor c input output ≠ dst := fun heq => hdst (heq ▸ List.mem_cons_self)
    rw [hswapped.moved.balanceOf_token]
    exact Ledger.move_target hne
  | cons next rest ih =>
    obtain ⟨y, amounts, rfl⟩ := List.exists_cons_of_length_eq_add_one hlength
    obtain ⟨z, amounts, rfl⟩ := List.exists_cons_of_length_eq_add_one (Nat.succ.inj hlength)
    obtain ⟨token0, token1, c₁, hsort, hrun, hrest⟩ := swap_cons_ok_iff.mp h
    obtain ⟨view, -, hswapped⟩ := swapPair_swapped hregistered hsort hrun
    rw [pools_cons, List.mem_cons, not_or] at hdst
    have hnext : dst ≠ pairFor c output next := fun heq => hdst.2 (heq ▸ List.mem_cons_self)
    rw [ih (hswapped.registered hregistered) _ (Nat.succ.inj hlength) (by simpa using hlast)
      (by simpa using htoken) hrest, hswapped.moved.balanceOf_owner hdst.1 hnext]
    rw [pools_congr hswapped.moved.factory]
    exact hdst.2

/-! ### The payment -/

/-- A payment to the first pair of a path, as the pairs of the path see it. -/
structure Paid (path : List Address) (first pair : Address) (x : ℕ) (c c₁ : Chain) : Prop where
  received : c₁.balanceOf first pair = c.balanceOf first pair + x
  kept : ∀ t, ∀ owner ∈ c.pools path, (t = first → owner ≠ pair) →
    c₁.balanceOf t owner = c.balanceOf t owner
  pairView : c₁.pairView = c.pairView
  factory : c₁.factory = c.factory

theorem Moved.paid {src : Address} (h : Moved token src pair x c c₁)
    (hview : c₁.pairView = c.pairView) (hpair : pair ∈ c.pools path) (hsrc : src ∉ c.pools path) :
    Paid path token pair x c c₁ := by
  constructor
  · rw [h.balanceOf_token]
    apply Ledger.move_target
    rintro rfl
    exact hsrc hpair
  · intro t owner howner hother
    by_cases ht : t = token
    · apply h.balanceOf_owner
      · rintro rfl
        exact hsrc howner
      · exact hother ht
    · rw [h.balanceOf_of_ne ht]
  · exact hview
  · exact h.factory

theorem payFirst_moved (h : Router.payFirst d sender path x c = .ok c₁) :
    ∃ first output rest, path = first :: output :: rest ∧
      Moved first sender (pairFor c first output) x c c₁ ∧ c₁.pairView = c.pairView := by
  match path, h with
  | [], h => simp [Router.payFirst, index] at h
  | [_], h => simp [Router.payFirst, Router.firstPair, index] at h
  | first :: output :: rest, h =>
    simp only [Router.payFirst, Router.firstPair, index, List.getElem?_cons_zero,
      List.getElem?_cons_succ, except_ok_bind, pure_bind, Router.safeTransferFrom] at h
    split at h
    · case _ c₂ hpaid =>
      obtain rfl := Except.ok.inj h
      exact ⟨first, output, rest, rfl, transferFrom_moved hpaid⟩
    · cases h

theorem firstPair_ok {first : Address} (hfirst : index path 0 = .ok first)
    (h : Router.firstPair c path = .ok pair) :
    ∃ output rest, path = first :: output :: rest ∧ pair = pairFor c first output := by
  match path, hfirst, h with
  | [], hfirst, _ => cases hfirst
  | [_], _, h => simp [Router.firstPair, index] at h
  | _ :: output :: rest, hfirst, h =>
    obtain rfl := Except.ok.inj hfirst
    exact ⟨output, rest, rfl, (Except.ok.inj h).symm⟩

theorem deposit_ok (h : d.deposit sender v c = .ok c') :
    c'.balanceOf = Function.update c.balanceOf d.weth (Ledger.credit (c.balanceOf d.weth) sender v) ∧
      c'.pairView = c.pairView ∧ c'.factory = c.factory := by
  simp only [Deployment.deposit, except_bind_ok_iff] at h
  obtain ⟨c₁, hpaid, h⟩ := h
  unfold Chain.pay at hpaid
  split_ifs at hpaid
  obtain rfl := Except.ok.inj hpaid
  split at h
  · case _ wecy hw =>
    simp only [except_bind_ok_iff, WECY.deposit_ok_iff, except_pure_ok_iff] at h
    obtain ⟨_, ⟨-, rfl⟩, rfl⟩ := h
    have hw' : c.contract d.weth = .wecy wecy := hw
    refine ⟨?_, ?_, rfl⟩
    · rw [balanceOf_setContract, balanceOf_setNative, balanceOf_wecy hw']
      rfl
    · rw [pairView_setContract]
      apply Function.update_eq_self_iff.mpr
      simp [Chain.pairView, hw', Contract.pairView]
  · cases h

theorem wrapInto_paid (hrouter : d.router ∉ c.pools path) (hpair : pair ∈ c.pools path)
    (h : Router.wrapInto d pair x c = .ok c₁) : Paid path d.weth pair x c c₁ := by
  simp only [Router.wrapInto, except_bind_ok_iff] at h
  obtain ⟨c₂, hdeposit, htransfer⟩ := h
  obtain ⟨hbalance, hview, hfactory⟩ := deposit_ok hdeposit
  obtain ⟨hmoved, hview'⟩ := transfer_moved htransfer
  have hpools := pools_congr hfactory path
  have hpaid : Paid path d.weth pair x c₂ c₁ :=
    hmoved.paid hview' (hpools ▸ hpair) (hpools ▸ hrouter)
  have hkept : ∀ t, ∀ owner ∈ c.pools path, c₂.balanceOf t owner = c.balanceOf t owner := by
    intro t owner howner
    have hne : owner ≠ d.router := fun heq => hrouter (heq ▸ howner)
    rw [hbalance]
    by_cases ht : t = d.weth
    · rw [ht, Function.update_self, Ledger.credit_of_ne hne]
    · rw [Function.update_of_ne ht]
  constructor
  · rw [hpaid.received, hkept _ _ hpair]
  · intro t owner howner hother
    rw [hpaid.kept t owner (hpools ▸ howner) hother, hkept t owner howner]
  · exact hpaid.pairView.trans hview
  · exact hpaid.factory.trans hfactory

namespace Paid

variable {first : Address}

theorem loads (h : Paid (first :: output :: rest) first (pairFor c first output) x c c₁)
    (hnodup : (c.pools (first :: output :: rest)).Nodup) (hne : first ≠ output)
    (hbalanced : ∀ hop ∈ hops (first :: output :: rest), c.Balanced hop) :
    c₁.Loaded (first, output) x ∧ ∀ hop ∈ hops (output :: rest), c₁.Balanced hop := by
  have hsame : ∀ a b, pairFor c₁ a b = pairFor c a b := by
    intro a b
    rw [pairFor, pairFor, h.factory]
  constructor
  · obtain ⟨hin, hout⟩ := hbalanced (first, output) List.mem_cons_self
    simp only [Loaded, hsame, reserve_congr (congrFun h.pairView _)]
    rw [h.received, h.kept output _ List.mem_cons_self fun heq => absurd heq.symm hne]
    exact ⟨congrArg (· + x) hin, hout⟩
  · intro hop hhop
    have hmem : pairFor c hop.1 hop.2 ∈ c.pools (output :: rest) := List.mem_map_of_mem hhop
    have hfar : pairFor c hop.1 hop.2 ≠ pairFor c first output := by
      intro heq
      rw [pools_cons, List.nodup_cons, ← heq] at hnodup
      exact hnodup.1 hmem
    have hkept : ∀ t, c₁.balanceOf t (pairFor c hop.1 hop.2) =
        c.balanceOf t (pairFor c hop.1 hop.2) :=
      fun t => h.kept t _ (List.mem_cons_of_mem _ hmem) fun _ => hfar
    have hbefore := hbalanced hop (List.mem_cons_of_mem _ hhop)
    simp only [Balanced, hsame, reserve_congr (congrFun h.pairView _), hkept]
    exact hbefore

theorem registered (h : Paid path first pair x c c₁) (hregistered : c.Registered) :
    c₁.Registered :=
  registered_congr h.factory (poolAt_congr h.pairView) hregistered

theorem amountsOutFrom_eq (h : Paid path first pair x c c₁) (y : ℕ) :
    amountsOutFrom c₁ y path = amountsOutFrom c y path :=
  amountsOutFrom_congr h.factory fun p _ => congrFun h.pairView p

/-- After the payment the swaps of what has arrived are those of the amounts that
the library computes before it. -/
theorem surplus_ok_iff (h : Paid (first :: output :: rest) first (pairFor c first output) x c c₁)
    (hregistered : c.Registered) (hnodup : (c.pools (first :: output :: rest)).Nodup)
    (hbalanced : ∀ hop ∈ hops (first :: output :: rest), c.Balanced hop) :
    Router.swapSupportingFeeOnTransferTokens block dst (first :: output :: rest) c₁ = .ok c' ↔
      ∃ amounts, getAmountsOut c x (first :: output :: rest) = .ok amounts ∧
        Router.swap block dst amounts.tail (first :: output :: rest) c₁ = .ok c' := by
  have hpools := pools_congr h.factory (first :: output :: rest)
  have hsurplus : first ≠ output →
      (Router.swapSupportingFeeOnTransferTokens block dst (first :: output :: rest) c₁ = .ok c' ↔
        ∃ amounts, amountsOutFrom c x (first :: output :: rest) = .ok (x :: amounts) ∧
          Router.swap block dst amounts (first :: output :: rest) c₁ = .ok c') := by
    intro hne
    obtain ⟨hloaded, hbalanced₁⟩ := h.loads hnodup hne hbalanced
    rw [swapSupportingFeeOnTransferTokens_ok_iff (h.registered hregistered) (hpools ▸ hnodup)
      hloaded hbalanced₁, h.amountsOutFrom_eq]
  constructor
  · intro hrun
    obtain ⟨amounts, hamounts, hswap⟩ :=
      (hsurplus (swapSupportingFeeOnTransferTokens_ne hrun)).mp hrun
    exact ⟨_, getAmountsOut_cons_iff.mpr hamounts, hswap⟩
  · rintro ⟨amounts, hquote, hswap⟩
    have hamounts := getAmountsOut_cons_iff.mp hquote
    obtain ⟨amounts, rfl⟩ := amountsOutFrom_head hamounts
    exact (hsurplus (amountsOutFrom_ne hamounts)).mpr ⟨amounts, hamounts, hswap⟩

theorem swap_gains (h : Paid (first :: output :: rest) first (pairFor c first output) x c c₁)
    (hregistered : c.Registered) (hdst : dst ∉ c.pools (first :: output :: rest))
    (htoken : Router.last (first :: output :: rest) = .ok token)
    (hquote : getAmountsOut c x (first :: output :: rest) = .ok amounts)
    (hswap : Router.swap block dst amounts.tail (first :: output :: rest) c₁ = .ok c') :
    ∃ amountOut, Router.last amounts = .ok amountOut ∧ index amounts 0 = .ok x ∧
      c'.balanceOf token dst = c₁.balanceOf token dst + amountOut := by
  have hlength := (getAmountsOut_length hquote).2
  obtain ⟨amounts, rfl⟩ := amountsOutFrom_head (getAmountsOut_cons_iff.mp hquote)
  obtain ⟨y, amounts, rfl⟩ := List.exists_cons_of_length_eq_add_one (Nat.succ.inj hlength)
  obtain ⟨amountOut, hlast⟩ := Router.exists_last (List.cons_ne_nil y amounts)
  rw [Router.last_ok_iff] at hlast htoken
  have hgain := swap_received (h.registered hregistered)
    (pools_congr h.factory (first :: output :: rest) ▸ hdst) (Nat.succ.inj hlength) hlast
    (by simpa using htoken) hswap
  exact ⟨amountOut, Router.last_ok_iff.mpr (by simpa using hlast), rfl, hgain⟩

end Paid
end Chain

theorem forall_mem_hop {P : Address × Address → Prop} {a b : Address} (h : P (a, b)) :
    ∀ hop ∈ hops [a, b], P hop := by
  intro hop hhop
  obtain rfl : hop = (a, b) := by simpa [hops] using hhop
  exact h

/-! ### The entry points -/

section EntryPoints

variable {amountIn amountOutMin value deadline : ℕ}

/-- For standard tokens and pairs at rest, the entry point for tokens that take a fee
succeeds when the plain one does, and leaves the same chain. -/
theorem swapExactTokensForTokensSupportingFeeOnTransferTokens_iff (hregistered : c.Registered)
    (hnodup : (c.pools path).Nodup) (hbalanced : ∀ hop ∈ hops path, c.Balanced hop)
    (hsender : sender ∉ c.pools path) (hdst : dst ∉ c.pools path) :
    Router.swapExactTokensForTokensSupportingFeeOnTransferTokens d block sender amountIn
        amountOutMin path dst deadline c = .ok c' ↔
      ∃ amounts, Router.swapExactTokensForTokens d block sender amountIn amountOutMin path dst
        deadline c = .ok (amounts, c') := by
  simp only [Router.swapExactTokensForTokensSupportingFeeOnTransferTokens,
    Router.swapExactTokensForTokens, Router.ensure, except_bind_ok_iff, require_ok_iff,
    except_pure_ok_iff, checkedSub_ok_iff, Prod.mk.injEq]
  constructor
  · rintro ⟨-, hdeadline, c₁, hpay, token, htoken, c₂, hrun, _, ⟨-, rfl⟩, -, hmin, rfl⟩
    obtain ⟨first, output, rest, rfl, hmoved, hview⟩ := Chain.payFirst_moved hpay
    have hpaid := hmoved.paid hview List.mem_cons_self hsender
    obtain ⟨amounts, hquote, hswap⟩ := (hpaid.surplus_ok_iff hregistered hnodup hbalanced).mp hrun
    obtain ⟨amountOut, hlast, hfirst, hgain⟩ :=
      hpaid.swap_gains hregistered hdst htoken hquote hswap
    have hmin' : amountOutMin ≤ amountOut := by omega
    exact ⟨amounts, (), hdeadline, amounts, hquote, amountOut, hlast, (), hmin', amountIn, hfirst,
      c₁, hpay, c₂, hswap, rfl, rfl⟩
  · rintro ⟨_, -, hdeadline, amounts, hquote, amountOut, hlast, -, hmin, paid, hfirst, c₁, hpay, c₂,
      hswap, rfl, rfl⟩
    obtain ⟨first, output, rest, rfl, hmoved, hview⟩ := Chain.payFirst_moved hpay
    obtain rfl := Chain.getAmountsOut_first hquote hfirst
    have hpaid := hmoved.paid hview List.mem_cons_self hsender
    obtain ⟨token, htoken⟩ := Router.exists_last (List.cons_ne_nil first (output :: rest))
    obtain ⟨amountOut', hlast', -, hgain⟩ :=
      hpaid.swap_gains hregistered hdst htoken hquote hswap
    obtain rfl := Except.ok.inj (hlast.symm.trans hlast')
    have hrun := (hpaid.surplus_ok_iff hregistered hnodup hbalanced).mpr ⟨amounts, hquote, hswap⟩
    exact ⟨(), hdeadline, c₁, hpay, token, htoken, _, hrun, _, ⟨by omega, rfl⟩, (), by omega, rfl⟩

/-- Both take the same way over two pairs. -/
theorem swapExactTokensForTokensSupportingFeeOnTransferTokens_sample :
    ∃ c', Router.swapExactTokensForTokensSupportingFeeOnTransferTokens sampleDeployment ⟨0, 1⟩ ⟨5⟩
        1000 800 [⟨2⟩, ⟨3⟩, ⟨4⟩] ⟨6⟩ 0 sampleExchange = .ok c' ∧
      Router.swapExactTokensForTokens sampleDeployment ⟨0, 1⟩ ⟨5⟩ 1000 800 [⟨2⟩, ⟨3⟩, ⟨4⟩] ⟨6⟩ 0
        sampleExchange = .ok ([1000, 906, 828], c') := by
  have hrun : Prod.fst <$> Router.swapExactTokensForTokens sampleDeployment ⟨0, 1⟩ ⟨5⟩ 1000 800
      [⟨2⟩, ⟨3⟩, ⟨4⟩] ⟨6⟩ 0 sampleExchange = .ok [1000, 906, 828] := by decide +kernel
  obtain ⟨⟨_, c'⟩, hrun, rfl⟩ := except_map_ok_iff.mp hrun
  refine ⟨c', ?_, hrun⟩
  apply (swapExactTokensForTokensSupportingFeeOnTransferTokens_iff
    sampleExchange_consistent.registered (by decide +kernel) _ (by decide +kernel)
    (by decide +kernel)).mpr ⟨_, hrun⟩
  exact forall_mem_hops (by decide +kernel) (by decide +kernel)

/-- The same of a payment in native currency. -/
theorem swapExactETHForTokensSupportingFeeOnTransferTokens_iff (hregistered : c.Registered)
    (hnodup : (c.pools path).Nodup) (hbalanced : ∀ hop ∈ hops path, c.Balanced hop)
    (hrouter : d.router ∉ c.pools path) (hdst : dst ∉ c.pools path) :
    Router.swapExactETHForTokensSupportingFeeOnTransferTokens d block value amountOutMin path dst
        deadline c = .ok c' ↔
      ∃ amounts, Router.swapExactETHForTokens d block value amountOutMin path dst deadline c =
        .ok (amounts, c') := by
  simp only [Router.swapExactETHForTokensSupportingFeeOnTransferTokens,
    Router.swapExactETHForTokens, Router.ensure, except_bind_ok_iff, require_ok_iff,
    except_pure_ok_iff, checkedSub_ok_iff, Prod.mk.injEq]
  constructor
  · rintro ⟨-, hdeadline, weth, hweth, -, rfl, pair, hpair, c₁, hwrap, token, htoken, c₂, hrun, _,
      ⟨-, rfl⟩, -, hmin, rfl⟩
    obtain ⟨output, rest, rfl, rfl⟩ := Chain.firstPair_ok hweth hpair
    have hpaid := Chain.wrapInto_paid hrouter List.mem_cons_self hwrap
    obtain ⟨amounts, hquote, hswap⟩ := (hpaid.surplus_ok_iff hregistered hnodup hbalanced).mp hrun
    obtain ⟨amountOut, hlast, hfirst, hgain⟩ :=
      hpaid.swap_gains hregistered hdst htoken hquote hswap
    have hmin' : amountOutMin ≤ amountOut := by omega
    exact ⟨amounts, (), hdeadline, _, hweth, (), rfl, amounts, hquote, amountOut, hlast, (), hmin',
      value, hfirst, _, hpair, c₁, hwrap, c₂, hswap, rfl, rfl⟩
  · rintro ⟨_, -, hdeadline, weth, hweth, -, rfl, amounts, hquote, amountOut, hlast, -, hmin, paid,
      hfirst, pair, hpair, c₁, hwrap, c₂, hswap, rfl, rfl⟩
    obtain ⟨output, rest, rfl, rfl⟩ := Chain.firstPair_ok hweth hpair
    obtain rfl := Chain.getAmountsOut_first hquote hfirst
    have hpaid := Chain.wrapInto_paid hrouter List.mem_cons_self hwrap
    obtain ⟨token, htoken⟩ := Router.exists_last (List.cons_ne_nil d.weth (output :: rest))
    obtain ⟨amountOut', hlast', -, hgain⟩ :=
      hpaid.swap_gains hregistered hdst htoken hquote hswap
    obtain rfl := Except.ok.inj (hlast.symm.trans hlast')
    have hrun := (hpaid.surplus_ok_iff hregistered hnodup hbalanced).mpr ⟨amounts, hquote, hswap⟩
    exact ⟨(), hdeadline, _, hweth, (), rfl, _, hpair, c₁, hwrap, token, htoken, _, hrun, _,
      ⟨by omega, rfl⟩, (), by omega, rfl⟩

/-- The pair with WECY, an account with tokens, and a router that has been paid. -/
def sampleWrappedTokens : Chain :=
  { Chain.initial ⟨9⟩ with
    native := Ledger.credit (Ledger.credit (fun _ => 0) ⟨100⟩ 1000) ⟨101⟩ 10000 }.setContract
    ⟨2⟩ (.token (sampleHoldings [(⟨24⟩, 10000), (⟨5⟩, 1000)])) |>.setContract
    ⟨101⟩ (.wecy { balanceOf := Ledger.credit (fun _ => 0) ⟨24⟩ 10000, allowance := fun _ _ => 0 })
    |>.setPair sampleWecyPool (samplePair sampleWecyPool [])

def sampleWrapped : Chain :=
  { sampleWrappedTokens with factory := sampleWrappedTokens.factory.register ⟨2⟩ ⟨101⟩ ⟨24⟩ }

theorem sampleWrapped_registered : sampleWrapped.Registered := by
  have hpool : sampleWrappedTokens.poolAt sampleWecyPool.pair = some sampleWecyPool := rfl
  have hnone : sampleWrappedTokens.Registered := fun _ _ hne => absurd rfl hne
  exact hnone.register hpool

theorem swapExactETHForTokensSupportingFeeOnTransferTokens_sample :
    ∃ c', Router.swapExactETHForTokensSupportingFeeOnTransferTokens sampleDeployment ⟨0, 1⟩ 1000 900
        [⟨101⟩, ⟨2⟩] ⟨6⟩ 0 sampleWrapped = .ok c' ∧
      Router.swapExactETHForTokens sampleDeployment ⟨0, 1⟩ 1000 900 [⟨101⟩, ⟨2⟩] ⟨6⟩ 0
        sampleWrapped = .ok ([1000, 906], c') := by
  have hrun : Prod.fst <$> Router.swapExactETHForTokens sampleDeployment ⟨0, 1⟩ 1000 900
      [⟨101⟩, ⟨2⟩] ⟨6⟩ 0 sampleWrapped = .ok [1000, 906] := by decide +kernel
  obtain ⟨⟨_, c'⟩, hrun, rfl⟩ := except_map_ok_iff.mp hrun
  refine ⟨c', ?_, hrun⟩
  apply (swapExactETHForTokensSupportingFeeOnTransferTokens_iff sampleWrapped_registered
    (by decide +kernel) _ (by decide +kernel) (by decide +kernel)).mpr ⟨_, hrun⟩
  exact forall_mem_hop (by decide +kernel)

/-- The same of a payment out in native currency, when the router holds no WECY: the
entry point pays out all that the router has. -/
theorem swapExactTokensForETHSupportingFeeOnTransferTokens_iff (hregistered : c.Registered)
    (hnodup : (c.pools path).Nodup) (hbalanced : ∀ hop ∈ hops path, c.Balanced hop)
    (hsender : sender ∉ c.pools path ∧ sender ≠ d.router) (hrouter : d.router ∉ c.pools path)
    (hempty : c.balanceOf d.weth d.router = 0) :
    Router.swapExactTokensForETHSupportingFeeOnTransferTokens d block sender amountIn amountOutMin
        path dst deadline c = .ok c' ↔
      ∃ amounts, Router.swapExactTokensForETH d block sender amountIn amountOutMin path dst
        deadline c = .ok (amounts, c') := by
  simp only [Router.swapExactTokensForETHSupportingFeeOnTransferTokens,
    Router.swapExactTokensForETH, Router.ensure, except_bind_ok_iff, require_ok_iff,
    except_pure_ok_iff, Prod.mk.injEq]
  constructor
  · rintro ⟨-, hdeadline, weth, hweth, -, rfl, c₁, hpay, c₂, hrun, -, hmin, hunwrap⟩
    obtain ⟨first, output, rest, rfl, hmoved, hview⟩ := Chain.payFirst_moved hpay
    have hpaid := hmoved.paid hview List.mem_cons_self hsender.1
    obtain ⟨amounts, hquote, hswap⟩ := (hpaid.surplus_ok_iff hregistered hnodup hbalanced).mp hrun
    obtain ⟨amountOut, hlast, hfirst, hgain⟩ :=
      hpaid.swap_gains hregistered hrouter hweth hquote hswap
    have hheld : c₁.balanceOf d.weth d.router = 0 := by
      rw [hmoved.balanceOf_owner hsender.2.symm _, hempty]
      exact fun heq => hrouter (heq ▸ List.mem_cons_self)
    rw [hheld, Nat.zero_add] at hgain
    rw [hgain] at hmin hunwrap
    exact ⟨amounts, (), hdeadline, _, hweth, (), rfl, amounts, hquote, amountOut, hlast, (), hmin,
      amountIn, hfirst, c₁, hpay, c₂, hswap, c', hunwrap, rfl, rfl⟩
  · rintro ⟨_, -, hdeadline, weth, hweth, -, rfl, amounts, hquote, amountOut, hlast, -, hmin, paid,
      hfirst, c₁, hpay, c₂, hswap, _, hunwrap, rfl, rfl⟩
    obtain ⟨first, output, rest, rfl, hmoved, hview⟩ := Chain.payFirst_moved hpay
    obtain rfl := Chain.getAmountsOut_first hquote hfirst
    have hpaid := hmoved.paid hview List.mem_cons_self hsender.1
    obtain ⟨amountOut', hlast', -, hgain⟩ :=
      hpaid.swap_gains hregistered hrouter hweth hquote hswap
    obtain rfl := Except.ok.inj (hlast.symm.trans hlast')
    have hheld : c₁.balanceOf d.weth d.router = 0 := by
      rw [hmoved.balanceOf_owner hsender.2.symm _, hempty]
      exact fun heq => hrouter (heq ▸ List.mem_cons_self)
    rw [hheld, Nat.zero_add] at hgain
    have hrun := (hpaid.surplus_ok_iff hregistered hnodup hbalanced).mpr ⟨amounts, hquote, hswap⟩
    exact ⟨(), hdeadline, _, hweth, (), rfl, c₁, hpay, c₂, hrun, (), hgain ▸ hmin, hgain ▸ hunwrap⟩

theorem swapExactTokensForETHSupportingFeeOnTransferTokens_sample :
    ∃ c', Router.swapExactTokensForETHSupportingFeeOnTransferTokens sampleDeployment ⟨0, 1⟩ ⟨5⟩ 1000
        900 [⟨2⟩, ⟨101⟩] ⟨6⟩ 0 sampleWrapped = .ok c' ∧
      Router.swapExactTokensForETH sampleDeployment ⟨0, 1⟩ ⟨5⟩ 1000 900 [⟨2⟩, ⟨101⟩] ⟨6⟩ 0
        sampleWrapped = .ok ([1000, 906], c') := by
  have hrun : Prod.fst <$> Router.swapExactTokensForETH sampleDeployment ⟨0, 1⟩ ⟨5⟩ 1000 900
      [⟨2⟩, ⟨101⟩] ⟨6⟩ 0 sampleWrapped = .ok [1000, 906] := by decide +kernel
  obtain ⟨⟨_, c'⟩, hrun, rfl⟩ := except_map_ok_iff.mp hrun
  refine ⟨c', ?_, hrun⟩
  apply (swapExactTokensForETHSupportingFeeOnTransferTokens_iff sampleWrapped_registered
    (by decide +kernel) _ (by decide +kernel) (by decide +kernel) (by decide +kernel)).mpr ⟨_, hrun⟩
  exact forall_mem_hop (by decide +kernel)

end EntryPoints
end EnergyChain.Dex
