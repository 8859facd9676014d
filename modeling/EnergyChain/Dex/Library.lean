import EnergyChain.Dex.Exchange

/-!
# UniswapV2Library

The order of two tokens, the pairs and reserves the factory has for them, and the
amounts of trades along a path.
-/

namespace EnergyChain.Dex.Library

def sortTokens (tokenA tokenB : Address) : Except Revert (Address × Address) := do
  require (tokenA ≠ tokenB) "UniswapV2Library: IDENTICAL_ADDRESSES"
  let (token0, token1) := if tokenA < tokenB then (tokenA, tokenB) else (tokenB, tokenA)
  require (token0 ≠ .zero) "UniswapV2Library: ZERO_ADDRESS"
  return (token0, token1)

def pairFor (c : Chain) (tokenA tokenB : Address) : Address := c.factory.getPair tokenA tokenB

/-- `tokenA == token0 ? (x, y) : (y, x)` -/
def inOrder (tokenA token0 : Address) (x y : ℕ) : ℕ × ℕ :=
  if tokenA = token0 then (x, y) else (y, x)

def getReserves (c : Chain) (tokenA tokenB : Address) : Except Revert (ℕ × ℕ) := do
  let (token0, _) ← sortTokens tokenA tokenB
  let (reserve0, reserve1) ← c.getReserves (pairFor c tokenA tokenB)
  return inOrder tokenA token0 reserve0 reserve1

def quote (amountA reserveA reserveB : ℕ) : Except Revert ℕ := do
  require (amountA > 0) "UniswapV2Library: INSUFFICIENT_AMOUNT"
  require (reserveA > 0 ∧ reserveB > 0) "UniswapV2Library: INSUFFICIENT_LIQUIDITY"
  let product ← checkedMul amountA reserveB
  checkedDiv product reserveA

def getAmountOut (amountIn reserveIn reserveOut : ℕ) : Except Revert ℕ := do
  require (amountIn > 0) "UniswapV2Library: INSUFFICIENT_INPUT_AMOUNT"
  require (reserveIn > 0 ∧ reserveOut > 0) "UniswapV2Library: INSUFFICIENT_LIQUIDITY"
  let amountInWithFee ← checkedMul amountIn 997
  let numerator ← checkedMul amountInWithFee reserveOut
  let thousandths ← checkedMul reserveIn 1000
  let denominator ← checkedAdd thousandths amountInWithFee
  checkedDiv numerator denominator

def getAmountIn (amountOut reserveIn reserveOut : ℕ) : Except Revert ℕ := do
  require (amountOut > 0) "UniswapV2Library: INSUFFICIENT_OUTPUT_AMOUNT"
  require (reserveIn > 0 ∧ reserveOut > 0) "UniswapV2Library: INSUFFICIENT_LIQUIDITY"
  let product ← checkedMul reserveIn amountOut
  let numerator ← checkedMul product 1000
  let remaining ← checkedSub reserveOut amountOut
  let denominator ← checkedMul remaining 997
  let quotient ← checkedDiv numerator denominator
  checkedAdd quotient 1

/-- The loop of `getAmountsOut`, from an amount of the first token of the path. -/
def amountsOutFrom (c : Chain) (amountIn : ℕ) : List Address → Except Revert (List ℕ)
  | input :: output :: rest => do
    let (reserveIn, reserveOut) ← getReserves c input output
    let amountOut ← getAmountOut amountIn reserveIn reserveOut
    let amounts ← amountsOutFrom c amountOut (output :: rest)
    return amountIn :: amounts
  | _ => .ok [amountIn]

def getAmountsOut (c : Chain) (amountIn : ℕ) (path : List Address) : Except Revert (List ℕ) := do
  require (path.length ≥ 2) "UniswapV2Library: INVALID_PATH"
  amountsOutFrom c amountIn path

/-- The loop of `getAmountsIn`, which starts at the end of the path. -/
def amountsInFrom (c : Chain) (amountOut : ℕ) : List Address → Except Revert (List ℕ)
  | input :: output :: rest => do
    let amounts ← amountsInFrom c amountOut (output :: rest)
    let (reserveIn, reserveOut) ← getReserves c input output
    let wanted ← index amounts 0
    let amountIn ← getAmountIn wanted reserveIn reserveOut
    return amountIn :: amounts
  | _ => .ok [amountOut]

def getAmountsIn (c : Chain) (amountOut : ℕ) (path : List Address) : Except Revert (List ℕ) := do
  require (path.length ≥ 2) "UniswapV2Library: INVALID_PATH"
  amountsInFrom c amountOut path

/-! ### One amount for each token of a path -/

theorem amountsOutFrom_length {c : Chain} {path : List Address} {amountIn : ℕ} {amounts : List ℕ}
    (h : amountsOutFrom c amountIn path = .ok amounts) (hpath : path ≠ []) :
    amounts.length = path.length := by
  induction path generalizing amountIn amounts with
  | nil => exact absurd rfl hpath
  | cons input rest ih =>
    cases rest with
    | nil => rw [← Except.ok.inj h, List.length_singleton, List.length_singleton]
    | cons output rest =>
      simp only [amountsOutFrom, except_bind_ok_iff, except_pure_ok_iff] at h
      obtain ⟨_, -, _, -, amounts, hrest, rfl⟩ := h
      rw [List.length_cons, List.length_cons, ih hrest (List.cons_ne_nil _ _)]

theorem amountsInFrom_length {c : Chain} {path : List Address} {amountOut : ℕ} {amounts : List ℕ}
    (h : amountsInFrom c amountOut path = .ok amounts) (hpath : path ≠ []) :
    amounts.length = path.length := by
  induction path generalizing amounts with
  | nil => exact absurd rfl hpath
  | cons input rest ih =>
    cases rest with
    | nil => rw [← Except.ok.inj h, List.length_singleton, List.length_singleton]
    | cons output rest =>
      simp only [amountsInFrom, except_bind_ok_iff, except_pure_ok_iff] at h
      obtain ⟨amounts, hrest, _, -, _, -, _, -, rfl⟩ := h
      rw [List.length_cons, List.length_cons, ih hrest (List.cons_ne_nil _ _)]

theorem getAmountsOut_length {c : Chain} {path : List Address} {amountIn : ℕ} {amounts : List ℕ}
    (h : getAmountsOut c amountIn path = .ok amounts) :
    2 ≤ path.length ∧ amounts.length = path.length := by
  simp only [getAmountsOut, except_bind_ok_iff, require_ok_iff] at h
  obtain ⟨-, hpath, h⟩ := h
  exact ⟨hpath, amountsOutFrom_length h (List.ne_nil_of_length_pos (by omega))⟩

theorem getAmountsIn_length {c : Chain} {path : List Address} {amountOut : ℕ} {amounts : List ℕ}
    (h : getAmountsIn c amountOut path = .ok amounts) :
    2 ≤ path.length ∧ amounts.length = path.length := by
  simp only [getAmountsIn, except_bind_ok_iff, require_ok_iff] at h
  obtain ⟨-, hpath, h⟩ := h
  exact ⟨hpath, amountsInFrom_length h (List.ne_nil_of_length_pos (by omega))⟩

end EnergyChain.Dex.Library
