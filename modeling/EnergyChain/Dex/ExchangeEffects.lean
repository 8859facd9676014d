import EnergyChain.Dex.PairTransfers
import EnergyChain.Dex.Router

/-!
# What calls change on the chain

The chain as seen from outside its contracts: balances, and for each pair its pool,
its reserves and its lock. Every call is described by what it does to these.
-/

namespace EnergyChain.Dex

/-- What a pair shows of its storage, apart from its liquidity token. -/
structure PairView where
  pool : Pool
  reserve0 : ℕ
  reserve1 : ℕ
  unlocked : ℕ

def PairView.reserve (view : PairView) (token : Address) : ℕ :=
  if token = view.pool.token0 then view.reserve0
  else if token = view.pool.token1 then view.reserve1 else 0

@[simp] theorem PairView.reserve_token0 (view : PairView) :
    view.reserve view.pool.token0 = view.reserve0 := if_pos rfl

@[simp] theorem PairView.reserve_token1 (view : PairView) :
    view.reserve view.pool.token1 = view.reserve1 := by
  rw [reserve, if_neg view.pool.token0_lt_token1.ne', if_pos rfl]

theorem PairView.reserve_lt {view : PairView} {token : Address}
    (h : view.reserve0 < 2 ^ 112 ∧ view.reserve1 < 2 ^ 112) : view.reserve token < 2 ^ 112 := by
  unfold reserve
  split_ifs
  · exact h.1
  · exact h.2
  · norm_num

def Contract.pairView {self : Address} : Contract self → Option PairView
  | pair pool _ p => some ⟨pool, p.reserve0, p.reserve1, p.unlocked⟩
  | _ => none

/-- The pool is one of the two tokens, in either order. -/
def Pool.Trades (pool : Pool) (tokenA tokenB : Address) : Prop :=
  pool.token0 = tokenA ∧ pool.token1 = tokenB ∨ pool.token0 = tokenB ∧ pool.token1 = tokenA

theorem Pool.Trades.ne {pool : Pool} {tokenA tokenB : Address} (h : pool.Trades tokenA tokenB) :
    tokenA ≠ tokenB := by
  rcases h with ⟨rfl, rfl⟩ | ⟨rfl, rfl⟩
  · exact pool.token0_lt_token1.ne
  · exact pool.token0_lt_token1.ne'

namespace Chain

def pairView (c : Chain) (a : Address) : Option PairView := (c.contract a).pairView

def poolAt (c : Chain) (a : Address) : Option Pool := (c.pairView a).map PairView.pool

/-- The factory has pairs of two tokens where its mapping says so. -/
def Registered (c : Chain) : Prop :=
  ∀ tokenA tokenB, c.factory.getPair tokenA tokenB ≠ .zero →
    ∃ pool, c.poolAt (c.factory.getPair tokenA tokenB) = some pool ∧ pool.Trades tokenA tokenB

variable {c c' : Chain} {a b token src dst sender pair : Address} {t : ERC20} {k : Contract a}
  {pool : Pool} {w : World} {v : ℕ}

/-! ### Writing a contract -/

@[simp] theorem native_setContract : (c.setContract a k).native = c.native := rfl

@[simp] theorem factory_setContract : (c.setContract a k).factory = c.factory := rfl

theorem balanceOf_setContract : (c.setContract a k).balanceOf =
    Function.update c.balanceOf a (k.erc20 (c.native a)).balanceOf := by
  funext b
  by_cases hb : b = a
  · subst hb
    rw [Function.update_self]
    funext owner
    simp [balanceOf, token, setContract]
  · rw [Function.update_of_ne hb]
    funext owner
    simp [balanceOf, token, setContract, Function.update_of_ne hb]

theorem pairView_setContract :
    (c.setContract a k).pairView = Function.update c.pairView a k.pairView := by
  funext b
  by_cases hb : b = a
  · subst hb
    simp [pairView, setContract]
  · simp [pairView, setContract, Function.update_of_ne hb]

@[simp] theorem native_setToken : (c.setToken a t).native = c.native := rfl

@[simp] theorem factory_setToken : (c.setToken a t).factory = c.factory := rfl

@[simp] theorem balanceOf_setToken :
    (c.setToken a t).balanceOf = Function.update c.balanceOf a t.balanceOf := by
  rw [setToken, balanceOf_setContract]
  cases c.contract a <;> rfl

@[simp] theorem pairView_setToken : (c.setToken a t).pairView = c.pairView := by
  rw [setToken, pairView_setContract]
  refine Function.update_eq_self_iff.mpr ?_
  unfold pairView
  cases c.contract a <;> rfl

/-! ### Writing a pair and its tokens -/

@[simp] theorem native_write : (c.write pool w).native = c.native := rfl

@[simp] theorem factory_write : (c.write pool w).factory = c.factory := rfl

theorem balanceOf_write : (c.write pool w).balanceOf =
    Function.update (Function.update (Function.update c.balanceOf pool.pair w.pair.balanceOf)
      pool.token0 w.token0.balanceOf) pool.token1 w.token1.balanceOf := by
  simp only [write, balanceOf_setToken, balanceOf_setContract]
  rfl

theorem pairView_write : (c.write pool w).pairView =
    Function.update c.pairView pool.pair
      (some ⟨pool, w.pair.reserve0, w.pair.reserve1, w.pair.unlocked⟩) := by
  simp only [write, pairView_setToken, pairView_setContract]
  rfl

/-! ### Token calls -/

/-- An amount of a token has moved, and no other balance has changed. -/
structure Moved (token src dst : Address) (v : ℕ) (c c' : Chain) : Prop where
  le : v ≤ c.balanceOf token src
  balanceOf : c'.balanceOf =
    Function.update c.balanceOf token (Ledger.move (c.balanceOf token) src dst v)
  native : c'.native = c.native
  factory : c'.factory = c.factory

theorem balanceOf_wecy {wecy : WECY} (h : c.contract token = .wecy wecy) :
    c.balanceOf token = wecy.balanceOf := by
  funext owner
  simp [balanceOf, Chain.token, h, Contract.erc20, WECY.erc20]

theorem moved_wecy {wecy wecy' : WECY} (hw : c.contract token = .wecy wecy)
    (hle : v ≤ wecy.balanceOf src) (hmoved : wecy'.balanceOf = Ledger.move wecy.balanceOf src dst v) :
    Moved token src dst v c (c.setContract token (.wecy wecy')) ∧
      (c.setContract token (.wecy wecy')).pairView = c.pairView := by
  have hsame := balanceOf_wecy hw
  constructor
  · refine ⟨hsame ▸ hle, ?_, rfl, rfl⟩
    rw [balanceOf_setContract, hsame, ← hmoved]
    rfl
  · rw [pairView_setContract]
    refine Function.update_eq_self_iff.mpr ?_
    simp [pairView, hw, Contract.pairView]

theorem moved_token (hle : v ≤ c.balanceOf token src)
    (hmoved : t.balanceOf = Ledger.move (c.balanceOf token) src dst v) :
    Moved token src dst v c (c.setToken token t) ∧ (c.setToken token t).pairView = c.pairView := by
  refine ⟨⟨hle, ?_, rfl, rfl⟩, pairView_setToken⟩
  rw [balanceOf_setToken, hmoved]

theorem transfer_moved (h : c.transfer token sender dst v = .ok c') :
    Moved token sender dst v c c' ∧ c'.pairView = c.pairView := by
  unfold transfer at h
  split at h
  · case _ wecy hw =>
    simp only [except_bind_ok_iff, except_pure_ok_iff] at h
    obtain ⟨wecy', hmoved, rfl⟩ := h
    obtain ⟨hle, hbalance⟩ := WECY.transferFrom_ok hmoved
    exact moved_wecy hw hle hbalance
  · simp only [except_bind_ok_iff, except_pure_ok_iff] at h
    obtain ⟨t, hmoved, rfl⟩ := h
    obtain ⟨hle, -, rfl⟩ := ERC20.transfer_ok_iff.mp hmoved
    exact moved_token hle rfl

theorem transferFrom_moved (h : c.transferFrom token sender src dst v = .ok c') :
    Moved token src dst v c c' ∧ c'.pairView = c.pairView := by
  unfold transferFrom at h
  split at h
  · case _ wecy hw =>
    simp only [except_bind_ok_iff, except_pure_ok_iff] at h
    obtain ⟨wecy', hmoved, rfl⟩ := h
    obtain ⟨hle, hbalance⟩ := WECY.transferFrom_ok hmoved
    exact moved_wecy hw hle hbalance
  · simp only [except_bind_ok_iff, except_pure_ok_iff] at h
    obtain ⟨t, hmoved, rfl⟩ := h
    obtain ⟨hle, hbalance⟩ := ERC20.transferFrom_moves hmoved
    exact moved_token hle hbalance

theorem transferFrom_succeeds (hle : v ≤ c.balanceOf token src)
    (hallowed : v ≤ c.allowance token src sender) (hne : src ≠ dst)
    (htotal : Ledger.total (c.balanceOf token) < uint256Size) :
    ∃ c', c.transferFrom token sender src dst v = .ok c' := by
  have hroom : Ledger.debit (c.balanceOf token) src v dst + v < uint256Size := by
    have hsum := Ledger.add_le_total (f := c.balanceOf token) hne
    rw [Ledger.debit_of_ne hne.symm]
    omega
  unfold transferFrom
  split
  · case _ wecy hw =>
    rw [balanceOf_wecy hw] at hle hroom
    rw [allowance, Chain.token, hw] at hallowed
    obtain ⟨wecy', hmoved⟩ := WECY.transferFrom_succeeds hle (fun _ => hallowed) hroom
    rw [hmoved]
    exact ⟨_, rfl⟩
  · obtain ⟨t, hmoved⟩ := ERC20.transferFrom_succeeds hle hallowed hroom
    rw [hmoved]
    exact ⟨_, rfl⟩

namespace Moved

variable {owner : Address}

theorem balanceOf_of_ne (h : Moved token src dst v c c') (hb : b ≠ token) :
    c'.balanceOf b = c.balanceOf b := by
  rw [h.balanceOf, Function.update_of_ne hb]

theorem balanceOf_token (h : Moved token src dst v c c') :
    c'.balanceOf token = Ledger.move (c.balanceOf token) src dst v := by
  rw [h.balanceOf, Function.update_self]

theorem balanceOf_owner (h : Moved token src dst v c c') (hsrc : owner ≠ src) (hdst : owner ≠ dst) :
    c'.balanceOf b owner = c.balanceOf b owner := by
  by_cases hb : b = token
  · rw [hb, h.balanceOf_token, Ledger.move_of_ne hsrc hdst]
  · rw [h.balanceOf_of_ne hb]

theorem total (h : Moved token src dst v c c') (b : Address) :
    Ledger.total (c'.balanceOf b) = Ledger.total (c.balanceOf b) := by
  by_cases hb : b = token
  · rw [hb, h.balanceOf_token, Ledger.total_move h.le]
  · rw [h.balanceOf_of_ne hb]

end Moved
/-! ### Calls of a pair -/

theorem callPair_ok {α : Type} {r : α} {f : Pool → World → Except Revert (α × World)}
    (h : c.callPair pair f = .ok (r, c')) :
    ∃ (pool : Pool) (p : PairStorage) (w : World), pair = pool.pair ∧
      c.contract pool.pair = .pair pool rfl p ∧ f pool (c.world pool p) = .ok (r, w) ∧
      c' = c.write pool w := by
  unfold callPair at h
  split at h
  · case _ pool deployed p hp =>
    subst deployed
    simp only [except_bind_ok_iff, except_pure_ok_iff, Prod.mk.injEq] at h
    obtain ⟨⟨_, w⟩, hrun, rfl, rfl⟩ := h
    exact ⟨pool, p, w, rfl, hp, hrun, rfl⟩
  · cases h

theorem pairView_pair {p : PairStorage} (h : c.contract pool.pair = .pair pool rfl p) :
    c.pairView pool.pair = some ⟨pool, p.reserve0, p.reserve1, p.unlocked⟩ := by
  rw [pairView, h, Contract.pairView]

theorem balanceOf_pair {p : PairStorage} (h : c.contract pool.pair = .pair pool rfl p) :
    c.balanceOf pool.pair = p.balanceOf := by
  funext owner
  simp [balanceOf, Chain.token, h, Contract.erc20]

theorem poolAt_eq {view : PairView} (h : c.pairView a = some view) : c.poolAt a = some view.pool := by
  rw [poolAt, h, Option.map_some]

/-- What a swap of one pair does: the output moves, and the reserves of the pair
become its balances. -/
structure PairSwapped (pair output dst : Address) (amountOut : ℕ) (view : PairView)
    (c c' : Chain) : Prop where
  moved : Moved output pair dst amountOut c c'
  found : c.pairView pair = some view
  pairView : c'.pairView = Function.update c.pairView pair
    (some ⟨view.pool, c'.balanceOf view.pool.token0 pair, c'.balanceOf view.pool.token1 pair, 1⟩)
  bounded0 : c'.balanceOf view.pool.token0 pair < 2 ^ 112
  bounded1 : c'.balanceOf view.pool.token1 pair < 2 ^ 112

theorem balanceOf_swapped {o₀ o₁ : ℕ} {p : PairStorage} (hp : c.contract pool.pair = .pair pool rfl p)
    (h : Pool.Swapped pool dst o₀ o₁ (c.world pool p) w) : (c.write pool w).balanceOf =
      Function.update (Function.update c.balanceOf
        pool.token0 (Ledger.move (c.balanceOf pool.token0) pool.pair dst o₀))
        pool.token1 (Ledger.move (c.balanceOf pool.token1) pool.pair dst o₁) := by
  have hpaid₀ : w.token0.balanceOf = Ledger.move (c.balanceOf pool.token0) pool.pair dst o₀ :=
    (pool.payOut_moves h.paid0).2
  have hpaid₁ : w.token1.balanceOf = Ledger.move (c.balanceOf pool.token1) pool.pair dst o₁ :=
    (pool.payOut_moves h.paid1).2
  have hkept : w.pair.balanceOf = c.balanceOf pool.pair := by
    rw [balanceOf_pair hp, h.liquidity]
    rfl
  rw [balanceOf_write, hpaid₀, hpaid₁, hkept, Function.update_eq_self]

theorem sortTokens_trades {input output token0 token1 : Address} (htrades : pool.Trades input output)
    (hsort : Library.sortTokens input output = .ok (token0, token1)) :
    pool.token0 = token0 ∧ (input = token0 ∧ output = pool.token1 ∧ input = pool.token0 ∨
      input ≠ token0 ∧ output = pool.token0 ∧ input = pool.token1) := by
  simp only [Library.sortTokens, except_bind_ok_iff, require_ok_iff, except_pure_ok_iff] at hsort
  obtain ⟨-, hne, -, -, hpair⟩ := hsort
  have hlt := pool.token0_lt_token1
  rcases htrades with ⟨rfl, rfl⟩ | ⟨rfl, rfl⟩
  · rw [if_pos hlt, Prod.mk.injEq] at hpair
    exact ⟨hpair.1, Or.inl ⟨hpair.1, rfl, rfl⟩⟩
  · rw [if_neg hlt.le.not_gt, Prod.mk.injEq] at hpair
    exact ⟨hpair.1, Or.inr ⟨hpair.1 ▸ hlt.ne', rfl, rfl⟩⟩

theorem Registered.trades {tokenA tokenB : Address} (h : Registered c)
    (hpair : Library.pairFor c tokenA tokenB = pool.pair) (hpool : c.poolAt pool.pair = some pool) :
    pool.Trades tokenA tokenB := by
  have hne : c.factory.getPair tokenA tokenB ≠ .zero := by
    intro hzero
    exact pool.pair_ne_zero (hpair.symm.trans hzero)
  obtain ⟨pool', hpool', htrades⟩ := h tokenA tokenB hne
  have hsame : c.factory.getPair tokenA tokenB = pool.pair := hpair
  rw [hsame, hpool] at hpool'
  exact Option.some.inj hpool' ▸ htrades

theorem swapPair_swapped {block : Block} {input output token0 token1 : Address}
    (hregistered : Registered c)
    (hsort : Library.sortTokens input output = .ok (token0, token1))
    (h : Router.swapPair block (Library.pairFor c input output) input token0 v dst c = .ok c') :
    ∃ view : PairView, view.pool.Trades input output ∧
      PairSwapped (Library.pairFor c input output) output dst v view c c' := by
  simp only [Router.swapPair, except_bind_ok_iff, except_pure_ok_iff] at h
  obtain ⟨⟨_, _⟩, hcall, rfl⟩ := h
  obtain ⟨pool, p, w, hpair, hp, hrun, rfl⟩ := callPair_ok hcall
  have hview := pairView_pair hp
  have htrades := hregistered.trades hpair (poolAt_eq hview)
  have hswapped := pool.swap_moves hrun
  have hbalance := balanceOf_swapped hp hswapped
  have hne : pool.token0 ≠ pool.token1 := pool.token0_lt_token1.ne
  have hmoved : Moved output pool.pair dst v c (c.write pool w) := by
    obtain ⟨-, ⟨hinput, houtput, -⟩ | ⟨hinput, houtput, -⟩⟩ := sortTokens_trades htrades hsort
    · simp only [Library.inOrder, if_pos hinput, Ledger.move_zero, Function.update_eq_self]
        at hswapped hbalance
      refine ⟨?_, ?_, rfl, rfl⟩
      · rw [houtput]
        exact (pool.payOut_moves hswapped.paid1).1
      · rw [houtput]
        exact hbalance
    · simp only [Library.inOrder, if_neg hinput, Ledger.move_zero] at hswapped hbalance
      rw [Function.update_comm hne, Function.update_eq_self] at hbalance
      refine ⟨?_, ?_, rfl, rfl⟩
      · rw [houtput]
        exact (pool.payOut_moves hswapped.paid0).1
      · rw [houtput]
        exact hbalance
  have hbalance₀ : (c.write pool w).balanceOf pool.token0 pool.pair = pool.balance0 w := by
    rw [balanceOf_write, Function.update_of_ne hne, Function.update_self]
    rfl
  have hbalance₁ : (c.write pool w).balanceOf pool.token1 pool.pair = pool.balance1 w := by
    rw [balanceOf_write, Function.update_self]
    rfl
  rw [hpair]
  refine ⟨_, htrades, hmoved, hview, ?_, ?_, ?_⟩
  · rw [pairView_write, hbalance₀, hbalance₁, hswapped.reserve0, hswapped.reserve1,
      hswapped.unlocked]
  · rw [hbalance₀]
    exact hswapped.bounded0
  · rw [hbalance₁]
    exact hswapped.bounded1

theorem exists_pair {view : PairView} (h : c.pairView pair = some view) :
    ∃ p : PairStorage, pair = view.pool.pair ∧
      c.contract view.pool.pair = .pair view.pool rfl p ∧ p.reserve0 = view.reserve0 ∧
      p.reserve1 = view.reserve1 ∧ p.unlocked = view.unlocked := by
  unfold pairView Contract.pairView at h
  split at h
  · case _ pool deployed p hp =>
    subst deployed
    obtain rfl := Option.some.inj h
    exact ⟨p, rfl, hp, rfl, rfl, rfl⟩
  · cases h

theorem callPair_eq {α : Type} {f : Pool → World → Except Revert (α × World)} {r : α}
    {p : PairStorage} (hp : c.contract pool.pair = .pair pool rfl p)
    (h : f pool (c.world pool p) = .ok (r, w)) :
    c.callPair pool.pair f = .ok (r, c.write pool w) := by
  unfold callPair
  rw [hp]
  simp only [h, except_ok_bind]
  rfl

theorem callPair_run {α : Type} {f : Pool → World → Except Revert (α × World)} {r : α}
    {p : PairStorage} (hp : c.contract pool.pair = .pair pool rfl p)
    (h : c.callPair pool.pair f = .ok (r, c')) : ∃ w, f pool (c.world pool p) = .ok (r, w) := by
  unfold callPair at h
  rw [hp] at h
  simp only [except_bind_ok_iff, except_pure_ok_iff, Prod.mk.injEq] at h
  obtain ⟨⟨_, w⟩, hrun, rfl, -⟩ := h
  exact ⟨w, hrun⟩

theorem getAmountOut_ok {x r s y : ℕ} (h : Library.getAmountOut x r s = .ok y) :
    0 < x ∧ 0 < r ∧ 0 < s ∧ y = ConstantProduct.amountOut 997 1000 x r s := by
  simp only [Library.getAmountOut, except_bind_ok_iff, require_ok_iff, checkedMul_ok_iff,
    checkedAdd_ok_iff, checkedDiv_ok_iff] at h
  obtain ⟨-, hx, -, ⟨hr, hs⟩, _, ⟨-, rfl⟩, _, ⟨-, rfl⟩, _, ⟨-, rfl⟩, _, ⟨-, rfl⟩, -, rfl⟩ := h
  exact ⟨hx, hr, hs, rfl⟩

theorem getAmountOut_eq {x r s : ℕ} (hx : 0 < x) (hr : 0 < r) (hs : 0 < s)
    (hlt : r + x < 2 ^ 112) (hlt' : s < 2 ^ 112) :
    Library.getAmountOut x r s = .ok (ConstantProduct.amountOut 997 1000 x r s) := by
  have hfee : x * 997 * s < uint256Size := by
    have hle : x * 997 * s ≤ 2 ^ 112 * 997 * 2 ^ 112 :=
      Nat.mul_le_mul (Nat.mul_le_mul_right 997 (by omega)) hlt'.le
    exact hle.trans_lt (by norm_num [uint256Size])
  simp only [Library.getAmountOut, except_bind_ok_iff, require_ok_iff, checkedMul_ok_iff,
    checkedAdd_ok_iff, checkedDiv_ok_iff]
  refine ⟨(), hx, (), ⟨hr, hs⟩, _, ⟨?_, rfl⟩, _, ⟨hfee, rfl⟩, _, ⟨?_, rfl⟩, _, ⟨?_, rfl⟩, ?_, rfl⟩
  all_goals rw [uint256Size_eq] at *; omega

/-- The amount of the library is the greatest that meets the condition of the
pair. -/
theorem le_amountOut_iff {x r s y : ℕ} (hr : 0 < r) (hy : y ≤ s) :
    y ≤ ConstantProduct.amountOut 997 1000 x r s ↔
      r * s * 1000 ^ 2 ≤ ((r + x) * 1000 - x * 3) * ((s - y) * 1000) := by
  have hkept : (r + x) * 1000 - x * 3 = r * 1000 + x * 997 := by omega
  rw [ConstantProduct.le_amountOut_iff (by omega) hy, hkept,
    show r * s * 1000 ^ 2 = r * 1000 * s * 1000 by ring, ← Nat.mul_assoc]
  exact (Nat.mul_le_mul_right_iff (by norm_num)).symm

section Swap

variable {block : Block} {input output : Address} {x y : ℕ} {view : PairView}
  {callee : World → Except Revert World}

/-- A pair that has received the input of a trade pays out an amount that keeps the
adjusted product. -/
theorem callSwap_succeeds (block : Block) (callee : World → Except Revert World)
    (hview : c.pairView pair = some view) (htrades : view.pool.Trades input output)
    (hopen : view.unlocked = 1) (hin : c.balanceOf input pair = view.reserve input + x)
    (hout : c.balanceOf output pair = view.reserve output) (hx : 0 < x) (hpos : 0 < y)
    (hr : 0 < view.reserve input) (hys : y < view.reserve output)
    (hlt : view.reserve input + x < 2 ^ 112) (hlt' : view.reserve output < 2 ^ 112)
    (hdst : dst ≠ input ∧ dst ≠ output ∧ dst ≠ pair)
    (htotal : Ledger.total (c.balanceOf output) < uint256Size)
    (hK : view.reserve input * view.reserve output * 1000 ^ 2 ≤
      ((view.reserve input + x) * 1000 - x * 3) * ((view.reserve output - y) * 1000)) :
    ∃ c', (c.callPair pair fun pool => pool.swap block (Library.inOrder input view.pool.token0 0 y).1
      (Library.inOrder input view.pool.token0 0 y).2 dst [] callee) = .ok ((), c') := by
  obtain ⟨p, rfl, hp, hr₀, hr₁, hu⟩ := exists_pair hview
  obtain ⟨t, ht⟩ : ∃ t, view.pool.payOut (c.token output) dst y = .ok t :=
    view.pool.payOut_succeeds (hys.le.trans hout.ge) hdst.2.2.symm htotal
  have hleft : t.balanceOf view.pool.pair = view.reserve output - y := by
    rw [(view.pool.payOut_moves ht).2, Ledger.move_source hdst.2.2.symm, ← hout]
    rfl
  have hswap : ∃ w, view.pool.swap block (Library.inOrder input view.pool.token0 0 y).1
      (Library.inOrder input view.pool.token0 0 y).2 dst [] callee (c.world view.pool p) =
      .ok ((), w) := by
    rcases htrades with ⟨rfl, rfl⟩ | ⟨rfl, rfl⟩
    · rw [PairView.reserve_token0, ← hr₀] at hin hK hr hlt
      rw [PairView.reserve_token1, ← hr₁] at hK hlt' hys hleft
      simp only [Library.inOrder, if_true]
      exact view.pool.swap_second_succeeds (hu.trans hopen) hx hpos hr hys ⟨hdst.1, hdst.2.1⟩ hin ht
        hleft hlt hlt' hK
    · rw [PairView.reserve_token1, ← hr₁] at hin hK hr hlt
      rw [PairView.reserve_token0, ← hr₀] at hK hlt' hys hleft
      simp only [Library.inOrder, if_neg view.pool.token0_lt_token1.ne']
      exact view.pool.swap_first_succeeds (hu.trans hopen) hx hpos hr hys ⟨hdst.2.1, hdst.1⟩ hin ht
        hleft hlt hlt' hK
  obtain ⟨w, hrun⟩ := hswap
  exact ⟨_, callPair_eq hp hrun⟩

theorem callSwap_kept (hview : c.pairView pair = some view)
    (htrades : view.pool.Trades input output)
    (hin : c.balanceOf input pair = view.reserve input + x)
    (hout : c.balanceOf output pair = view.reserve output) (hdst : dst ≠ pair)
    (h : (c.callPair pair fun pool => pool.swap block (Library.inOrder input view.pool.token0 0 y).1
      (Library.inOrder input view.pool.token0 0 y).2 dst [] callee) = .ok ((), c')) :
    view.reserve input * view.reserve output * 1000 ^ 2 ≤
      ((view.reserve input + x) * 1000 - x * 3) * ((view.reserve output - y) * 1000) := by
  obtain ⟨p, rfl, hp, hr₀, hr₁, -⟩ := exists_pair hview
  obtain ⟨w, hrun⟩ := callPair_run hp h
  rcases htrades with ⟨rfl, rfl⟩ | ⟨rfl, rfl⟩
  · rw [PairView.reserve_token0, ← hr₀] at hin ⊢
    rw [PairView.reserve_token1, ← hr₁] at hout ⊢
    simp only [Library.inOrder, if_true] at hrun
    have hK := view.pool.swap_second_kept (w := c.world view.pool p) hdst hin hout hrun
    exact hK
  · rw [PairView.reserve_token1, ← hr₁] at hin ⊢
    rw [PairView.reserve_token0, ← hr₀] at hout ⊢
    simp only [Library.inOrder, if_neg view.pool.token0_lt_token1.ne'] at hrun
    have hK := view.pool.swap_first_kept (w := c.world view.pool p) hdst hin hout hrun
    exact hK

/-- A pair that has received the input of a trade pays out the amount of the library,
or less. -/
theorem swapPair_succeeds (block : Block) {token0 token1 : Address}
    (hview : c.pairView pair = some view) (htrades : view.pool.Trades input output)
    (hsort : Library.sortTokens input output = .ok (token0, token1)) (hopen : view.unlocked = 1)
    (hin : c.balanceOf input pair = view.reserve input + x)
    (hout : c.balanceOf output pair = view.reserve output)
    (hr : 0 < view.reserve input)
    (hy : y ≤ ConstantProduct.amountOut 997 1000 x (view.reserve input) (view.reserve output))
    (hpos : 0 < y) (hlt : view.reserve input + x < 2 ^ 112) (hlt' : view.reserve output < 2 ^ 112)
    (hdst : dst ≠ input ∧ dst ≠ output ∧ dst ≠ pair)
    (htotal : Ledger.total (c.balanceOf output) < uint256Size) :
    ∃ c', Router.swapPair block pair input token0 y dst c = .ok c' := by
  obtain ⟨hx, hs⟩ := ConstantProduct.pos_of_amountOut_pos (hpos.trans_le hy)
  have hys : y < view.reserve output :=
    hy.trans_lt (ConstantProduct.amountOut_lt (by omega : 0 < view.reserve input * 1000) hs)
  obtain ⟨htoken0, -⟩ := sortTokens_trades htrades hsort
  obtain ⟨c', hcall⟩ := callSwap_succeeds block .ok hview htrades hopen hin hout hx hpos hr hys hlt
    hlt' hdst htotal ((le_amountOut_iff hr hys.le).mp hy)
  rw [htoken0] at hcall
  refine ⟨c', ?_⟩
  simp only [Router.swapPair, hcall, except_ok_bind]
  rfl

end Swap

end Chain
end EnergyChain.Dex
