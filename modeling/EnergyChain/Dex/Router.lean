import EnergyChain.Dex.Library

/-!
# UniswapV2Router02

The seventeen entry points of the router, with the liquidity amounts, the swaps
along a path and the token calls they are made of. A call that reverts leaves the
chain as it is.
-/

namespace EnergyChain.Dex.Router

open Library

/-! ### Token calls -/

/-- `_safeTransfer`; a failed call of the token is reported as an error of the
router. -/
def safeTransfer (d : Deployment) (token dst : Address) (value : ℕ) (c : Chain) :
    Except Revert Chain :=
  match c.transfer token d.router dst value with
  | .ok c => .ok c
  | .error _ => .error (.error (ascii "UniswapV2Router: TRANSFER_FAILED"))

/-- `_safeTransferFrom` -/
def safeTransferFrom (d : Deployment) (token src dst : Address) (value : ℕ) (c : Chain) :
    Except Revert Chain :=
  match c.transferFrom token d.router src dst value with
  | .ok c => .ok c
  | .error _ => .error (.error (ascii "UniswapV2Router: TRANSFER_FROM_FAILED"))

/-- `IWECY(WETH).deposit{value: amount}()` and the transfer of the amount to a
pair. -/
def wrapInto (d : Deployment) (pair : Address) (amount : ℕ) (c : Chain) : Except Revert Chain := do
  let c ← d.deposit d.router amount c
  c.transfer d.weth d.router pair amount

/-- `IWECY(WETH).withdraw(amount)` and the payment of the amount. -/
def unwrapTo (d : Deployment) (dst : Address) (amount : ℕ) (c : Chain) : Except Revert Chain := do
  let c ← d.withdraw d.router amount c
  d.transferNative d.router dst amount c

/-- `if (msg.value > spent) payable(msg.sender).transfer(msg.value - spent)` -/
def refund (d : Deployment) (sender : Address) (value spent : ℕ) (c : Chain) :
    Except Revert Chain :=
  if value > spent then d.transferNative d.router sender (value - spent) c else .ok c

/-- The modifier `ensure`. -/
def ensure (block : Block) (deadline : ℕ) : Except Revert Unit :=
  require (deadline ≥ block.timestamp) "UniswapV2Router: EXPIRED"

section Calls

variable (d : Deployment) (block : Block) (sender : Address)

/-! ### Add liquidity -/

/-- `_addLiquidity` for the reserves of a pair that has some. -/
def optimalAmounts (amountADesired amountBDesired amountAMin amountBMin reserveA reserveB : ℕ) :
    Except Revert (ℕ × ℕ) := do
  let amountBOptimal ← quote amountADesired reserveA reserveB
  if amountBOptimal ≤ amountBDesired then do
    require (amountBOptimal ≥ amountBMin) "UniswapV2Router: INSUFFICIENT_B_AMOUNT"
    return (amountADesired, amountBOptimal)
  else do
    let amountAOptimal ← quote amountBDesired reserveB reserveA
    assert (amountAOptimal ≤ amountADesired)
    require (amountAOptimal ≥ amountAMin) "UniswapV2Router: INSUFFICIENT_A_AMOUNT"
    return (amountAOptimal, amountBDesired)

/-- `if (getPair(tokenA, tokenB) == address(0)) createPair(tokenA, tokenB)` -/
def ensurePair (tokenA tokenB : Address) (c : Chain) : Except Revert Chain :=
  if c.factory.getPair tokenA tokenB = .zero then do
    let (_, c) ← d.createPair tokenA tokenB c
    return c
  else .ok c

/-- `_addLiquidity` -/
def liquidityAmounts (tokenA tokenB : Address)
    (amountADesired amountBDesired amountAMin amountBMin : ℕ) (c : Chain) :
    Except Revert ((ℕ × ℕ) × Chain) := do
  let c ← ensurePair d tokenA tokenB c
  let (reserveA, reserveB) ← getReserves c tokenA tokenB
  let amounts ←
    if reserveA = 0 ∧ reserveB = 0 then .ok (amountADesired, amountBDesired)
    else optimalAmounts amountADesired amountBDesired amountAMin amountBMin reserveA reserveB
  return (amounts, c)

/-- Returns the two amounts and the liquidity. -/
def addLiquidity (tokenA tokenB : Address)
    (amountADesired amountBDesired amountAMin amountBMin : ℕ) (dst : Address) (deadline : ℕ)
    (c : Chain) : Except Revert ((ℕ × ℕ × ℕ) × Chain) := do
  ensure block deadline
  let ((amountA, amountB), c) ←
    liquidityAmounts d tokenA tokenB amountADesired amountBDesired amountAMin amountBMin c
  let pair := pairFor c tokenA tokenB
  let c ← safeTransferFrom d tokenA sender pair amountA c
  let c ← safeTransferFrom d tokenB sender pair amountB c
  let (liquidity, c) ← c.callPair pair fun pool => pool.mint block dst
  return ((amountA, amountB, liquidity), c)

/-- Returns the two amounts and the liquidity; `value` came with the call. -/
def addLiquidityETH (value : ℕ) (token : Address) (amountTokenDesired amountTokenMin amountETHMin : ℕ)
    (dst : Address) (deadline : ℕ) (c : Chain) : Except Revert ((ℕ × ℕ × ℕ) × Chain) := do
  ensure block deadline
  let ((amountToken, amountETH), c) ←
    liquidityAmounts d token d.weth amountTokenDesired value amountTokenMin amountETHMin c
  let pair := pairFor c token d.weth
  let c ← safeTransferFrom d token sender pair amountToken c
  let c ← wrapInto d pair amountETH c
  let (liquidity, c) ← c.callPair pair fun pool => pool.mint block dst
  let c ← refund d sender value amountETH c
  return ((amountToken, amountETH, liquidity), c)

/-! ### Remove liquidity -/

/-- Returns the two amounts. -/
def removeLiquidity (tokenA tokenB : Address) (liquidity amountAMin amountBMin : ℕ)
    (dst : Address) (deadline : ℕ) (c : Chain) : Except Revert ((ℕ × ℕ) × Chain) := do
  ensure block deadline
  let pair := pairFor c tokenA tokenB
  let (_, c) ← c.callPair pair fun _ w => do
    let t ← w.pair.toERC20.transferFrom d.router sender pair liquidity
    return ((), w.withPair (w.pair.withToken t))
  let ((amount0, amount1), c) ← c.callPair pair fun pool => pool.burn block dst
  let (token0, _) ← sortTokens tokenA tokenB
  let (amountA, amountB) := inOrder tokenA token0 amount0 amount1
  require (amountA ≥ amountAMin) "UniswapV2Router: INSUFFICIENT_A_AMOUNT"
  require (amountB ≥ amountBMin) "UniswapV2Router: INSUFFICIENT_B_AMOUNT"
  return ((amountA, amountB), c)

/-- Returns the two amounts. -/
def removeLiquidityETH (token : Address) (liquidity amountTokenMin amountETHMin : ℕ)
    (dst : Address) (deadline : ℕ) (c : Chain) : Except Revert ((ℕ × ℕ) × Chain) := do
  ensure block deadline
  let ((amountToken, amountETH), c) ← removeLiquidity d block sender token d.weth liquidity
    amountTokenMin amountETHMin d.router deadline c
  let c ← safeTransfer d token dst amountToken c
  let c ← unwrapTo d dst amountETH c
  return ((amountToken, amountETH), c)

/-- Returns the native amount. -/
def removeLiquidityETHSupportingFeeOnTransferTokens (token : Address)
    (liquidity amountTokenMin amountETHMin : ℕ) (dst : Address) (deadline : ℕ) (c : Chain) :
    Except Revert (ℕ × Chain) := do
  ensure block deadline
  let ((_, amountETH), c) ← removeLiquidity d block sender token d.weth liquidity
    amountTokenMin amountETHMin d.router deadline c
  let c ← safeTransfer d token dst (c.balanceOf token d.router) c
  let c ← unwrapTo d dst amountETH c
  return (amountETH, c)

/-- The arguments of the `WithPermit` functions that only `permit` reads. -/
structure Permission where
  approveMax : Bool
  signature : Signature

/-- The call of `permit` that the `WithPermit` functions begin with. -/
def permit (tokenA tokenB : Address) (liquidity deadline : ℕ) (p : Permission) (c : Chain) :
    Except Revert Chain := do
  let value := if p.approveMax then ERC20.infinite else liquidity
  let (_, c) ← c.callPair (pairFor c tokenA tokenB) fun _ w => do
    let storage ← w.pair.permit d.keccak256 d.ecrecover block
      ⟨sender, d.router, value, deadline⟩ p.signature
    return ((), w.withPair storage)
  return c

def removeLiquidityWithPermit (tokenA tokenB : Address) (liquidity amountAMin amountBMin : ℕ)
    (dst : Address) (deadline : ℕ) (p : Permission) (c : Chain) :
    Except Revert ((ℕ × ℕ) × Chain) := do
  let c ← permit d block sender tokenA tokenB liquidity deadline p c
  removeLiquidity d block sender tokenA tokenB liquidity amountAMin amountBMin dst deadline c

def removeLiquidityETHWithPermit (token : Address) (liquidity amountTokenMin amountETHMin : ℕ)
    (dst : Address) (deadline : ℕ) (p : Permission) (c : Chain) :
    Except Revert ((ℕ × ℕ) × Chain) := do
  let c ← permit d block sender token d.weth liquidity deadline p c
  removeLiquidityETH d block sender token liquidity amountTokenMin amountETHMin dst deadline c

def removeLiquidityETHWithPermitSupportingFeeOnTransferTokens (token : Address)
    (liquidity amountTokenMin amountETHMin : ℕ) (dst : Address) (deadline : ℕ) (p : Permission)
    (c : Chain) : Except Revert (ℕ × Chain) := do
  let c ← permit d block sender token d.weth liquidity deadline p c
  removeLiquidityETHSupportingFeeOnTransferTokens d block sender token liquidity amountTokenMin
    amountETHMin dst deadline c

/-! ### Swap -/

/-- A swap of one pair on a path, for an amount of the output token. -/
def swapPair (pair input token0 : Address) (amountOut : ℕ) (dst : Address) (c : Chain) :
    Except Revert Chain := do
  let (amount0Out, amount1Out) := inOrder input token0 0 amountOut
  let (_, c) ← c.callPair pair fun pool => pool.swap block amount0Out amount1Out dst [] .ok
  return c

/-- The pair of the next two tokens, or at the end of the path the recipient. -/
def nextHolder (c : Chain) (output : Address) (rest : List Address) (dst : Address) : Address :=
  match rest with
  | next :: _ => pairFor c output next
  | [] => dst

/-- `_swap`, for the amounts behind the first. -/
def swap (dst : Address) : List ℕ → List Address → Chain → Except Revert Chain
  | amounts, input :: output :: rest, c => do
    let (token0, _) ← sortTokens input output
    let amountOut ← index amounts 0
    let c ← swapPair block (pairFor c input output) input token0 amountOut
      (nextHolder c output rest dst) c
    swap dst amounts.tail (output :: rest) c
  | _, _, c => .ok c

/-- `path[path.length - 1]` -/
def last {α : Type} (xs : List α) : Except Revert α := do
  let i ← checkedSub xs.length 1
  index xs i

/-- The pair of the first two tokens of a path. -/
def firstPair (c : Chain) (path : List Address) : Except Revert Address := do
  let input ← index path 0
  let output ← index path 1
  return pairFor c input output

/-- The payment of the first amount to the first pair. -/
def payFirst (path : List Address) (amountIn : ℕ) (c : Chain) : Except Revert Chain := do
  let input ← index path 0
  let pair ← firstPair c path
  safeTransferFrom d input sender pair amountIn c

def swapExactTokensForTokens (amountIn amountOutMin : ℕ) (path : List Address) (dst : Address)
    (deadline : ℕ) (c : Chain) : Except Revert (List ℕ × Chain) := do
  ensure block deadline
  let amounts ← getAmountsOut c amountIn path
  let amountOut ← last amounts
  require (amountOut ≥ amountOutMin) "UniswapV2Router: INSUFFICIENT_OUTPUT_AMOUNT"
  let paid ← index amounts 0
  let c ← payFirst d sender path paid c
  let c ← swap block dst amounts.tail path c
  return (amounts, c)

def swapTokensForExactTokens (amountOut amountInMax : ℕ) (path : List Address) (dst : Address)
    (deadline : ℕ) (c : Chain) : Except Revert (List ℕ × Chain) := do
  ensure block deadline
  let amounts ← getAmountsIn c amountOut path
  let paid ← index amounts 0
  require (paid ≤ amountInMax) "UniswapV2Router: EXCESSIVE_INPUT_AMOUNT"
  let c ← payFirst d sender path paid c
  let c ← swap block dst amounts.tail path c
  return (amounts, c)

def swapExactETHForTokens (value amountOutMin : ℕ) (path : List Address) (dst : Address)
    (deadline : ℕ) (c : Chain) : Except Revert (List ℕ × Chain) := do
  ensure block deadline
  let input ← index path 0
  require (input = d.weth) "UniswapV2Router: INVALID_PATH"
  let amounts ← getAmountsOut c value path
  let amountOut ← last amounts
  require (amountOut ≥ amountOutMin) "UniswapV2Router: INSUFFICIENT_OUTPUT_AMOUNT"
  let paid ← index amounts 0
  let pair ← firstPair c path
  let c ← wrapInto d pair paid c
  let c ← swap block dst amounts.tail path c
  return (amounts, c)

def swapTokensForExactETH (amountOut amountInMax : ℕ) (path : List Address) (dst : Address)
    (deadline : ℕ) (c : Chain) : Except Revert (List ℕ × Chain) := do
  ensure block deadline
  let output ← last path
  require (output = d.weth) "UniswapV2Router: INVALID_PATH"
  let amounts ← getAmountsIn c amountOut path
  let paid ← index amounts 0
  require (paid ≤ amountInMax) "UniswapV2Router: EXCESSIVE_INPUT_AMOUNT"
  let c ← payFirst d sender path paid c
  let c ← swap block d.router amounts.tail path c
  let received ← last amounts
  let c ← unwrapTo d dst received c
  return (amounts, c)

def swapExactTokensForETH (amountIn amountOutMin : ℕ) (path : List Address) (dst : Address)
    (deadline : ℕ) (c : Chain) : Except Revert (List ℕ × Chain) := do
  ensure block deadline
  let output ← last path
  require (output = d.weth) "UniswapV2Router: INVALID_PATH"
  let amounts ← getAmountsOut c amountIn path
  let amountOut ← last amounts
  require (amountOut ≥ amountOutMin) "UniswapV2Router: INSUFFICIENT_OUTPUT_AMOUNT"
  let paid ← index amounts 0
  let c ← payFirst d sender path paid c
  let c ← swap block d.router amounts.tail path c
  let c ← unwrapTo d dst amountOut c
  return (amounts, c)

def swapETHForExactTokens (value amountOut : ℕ) (path : List Address) (dst : Address)
    (deadline : ℕ) (c : Chain) : Except Revert (List ℕ × Chain) := do
  ensure block deadline
  let input ← index path 0
  require (input = d.weth) "UniswapV2Router: INVALID_PATH"
  let amounts ← getAmountsIn c amountOut path
  let paid ← index amounts 0
  require (paid ≤ value) "UniswapV2Router: EXCESSIVE_INPUT_AMOUNT"
  let pair ← firstPair c path
  let c ← wrapInto d pair paid c
  let c ← swap block dst amounts.tail path c
  let c ← refund d sender value paid c
  return (amounts, c)

/-! ### Fee-on-transfer swaps -/

/-- One round of `_swapSupportingFeeOnTransferTokens`: the input is what the pair
has above its reserve. -/
def swapSurplus (input output dst : Address) (c : Chain) : Except Revert Chain := do
  let (token0, _) ← sortTokens input output
  let pair := pairFor c input output
  let (reserve0, reserve1) ← c.getReserves pair
  let (reserveInput, reserveOutput) := inOrder input token0 reserve0 reserve1
  let amountInput ← checkedSub (c.balanceOf input pair) reserveInput
  let amountOutput ← getAmountOut amountInput reserveInput reserveOutput
  swapPair block pair input token0 amountOutput dst c

/-- `_swapSupportingFeeOnTransferTokens` -/
def swapSupportingFeeOnTransferTokens (dst : Address) : List Address → Chain → Except Revert Chain
  | input :: output :: rest, c => do
    let c ← swapSurplus block input output (nextHolder c output rest dst) c
    swapSupportingFeeOnTransferTokens dst (output :: rest) c
  | _, c => .ok c

def swapExactTokensForTokensSupportingFeeOnTransferTokens (amountIn amountOutMin : ℕ)
    (path : List Address) (dst : Address) (deadline : ℕ) (c : Chain) : Except Revert Chain := do
  ensure block deadline
  let c ← payFirst d sender path amountIn c
  let output ← last path
  let balanceBefore := c.balanceOf output dst
  let c ← swapSupportingFeeOnTransferTokens block dst path c
  let received ← checkedSub (c.balanceOf output dst) balanceBefore
  require (received ≥ amountOutMin) "UniswapV2Router: INSUFFICIENT_OUTPUT_AMOUNT"
  return c

def swapExactETHForTokensSupportingFeeOnTransferTokens (value amountOutMin : ℕ)
    (path : List Address) (dst : Address) (deadline : ℕ) (c : Chain) : Except Revert Chain := do
  ensure block deadline
  let input ← index path 0
  require (input = d.weth) "UniswapV2Router: INVALID_PATH"
  let pair ← firstPair c path
  let c ← wrapInto d pair value c
  let output ← last path
  let balanceBefore := c.balanceOf output dst
  let c ← swapSupportingFeeOnTransferTokens block dst path c
  let received ← checkedSub (c.balanceOf output dst) balanceBefore
  require (received ≥ amountOutMin) "UniswapV2Router: INSUFFICIENT_OUTPUT_AMOUNT"
  return c

def swapExactTokensForETHSupportingFeeOnTransferTokens (amountIn amountOutMin : ℕ)
    (path : List Address) (dst : Address) (deadline : ℕ) (c : Chain) : Except Revert Chain := do
  ensure block deadline
  let output ← last path
  require (output = d.weth) "UniswapV2Router: INVALID_PATH"
  let c ← payFirst d sender path amountIn c
  let c ← swapSupportingFeeOnTransferTokens block d.router path c
  let amountOut := c.balanceOf d.weth d.router
  require (amountOut ≥ amountOutMin) "UniswapV2Router: INSUFFICIENT_OUTPUT_AMOUNT"
  unwrapTo d dst amountOut c

end Calls

/-! ### The entry points together

Of the arguments `to` and `deadline`, which they share, the calls leave out both.
-/

inductive NonpayableCall where
  | addLiquidity (tokenA tokenB : Address)
      (amountADesired amountBDesired amountAMin amountBMin : ℕ)
  | removeLiquidity (tokenA tokenB : Address) (liquidity amountAMin amountBMin : ℕ)
  | removeLiquidityETH (token : Address) (liquidity amountTokenMin amountETHMin : ℕ)
  | removeLiquidityETHSupportingFeeOnTransferTokens (token : Address)
      (liquidity amountTokenMin amountETHMin : ℕ)
  | removeLiquidityWithPermit (tokenA tokenB : Address) (liquidity amountAMin amountBMin : ℕ)
      (permission : Permission)
  | removeLiquidityETHWithPermit (token : Address) (liquidity amountTokenMin amountETHMin : ℕ)
      (permission : Permission)
  | removeLiquidityETHWithPermitSupportingFeeOnTransferTokens (token : Address)
      (liquidity amountTokenMin amountETHMin : ℕ) (permission : Permission)
  | swapExactTokensForTokens (amountIn amountOutMin : ℕ) (path : List Address)
  | swapTokensForExactTokens (amountOut amountInMax : ℕ) (path : List Address)
  | swapTokensForExactETH (amountOut amountInMax : ℕ) (path : List Address)
  | swapExactTokensForETH (amountIn amountOutMin : ℕ) (path : List Address)
  | swapExactTokensForTokensSupportingFeeOnTransferTokens (amountIn amountOutMin : ℕ)
      (path : List Address)
  | swapExactTokensForETHSupportingFeeOnTransferTokens (amountIn amountOutMin : ℕ)
      (path : List Address)

inductive PayableCall where
  | addLiquidityETH (token : Address) (amountTokenDesired amountTokenMin amountETHMin : ℕ)
  | swapExactETHForTokens (amountOutMin : ℕ) (path : List Address)
  | swapETHForExactTokens (amountOut : ℕ) (path : List Address)
  | swapExactETHForTokensSupportingFeeOnTransferTokens (amountOutMin : ℕ) (path : List Address)

section Entry

variable (d : Deployment) (block : Block) (sender dst : Address) (deadline : ℕ)

/-- The chain after a call. -/
def executeNonpayable (c : Chain) : NonpayableCall → Except Revert Chain
  | .addLiquidity tokenA tokenB amountADesired amountBDesired amountAMin amountBMin =>
    Prod.snd <$> addLiquidity d block sender tokenA tokenB amountADesired amountBDesired
      amountAMin amountBMin dst deadline c
  | .removeLiquidity tokenA tokenB liquidity amountAMin amountBMin =>
    Prod.snd <$> removeLiquidity d block sender tokenA tokenB liquidity amountAMin amountBMin dst
      deadline c
  | .removeLiquidityETH token liquidity amountTokenMin amountETHMin =>
    Prod.snd <$> removeLiquidityETH d block sender token liquidity amountTokenMin amountETHMin dst
      deadline c
  | .removeLiquidityETHSupportingFeeOnTransferTokens token liquidity amountTokenMin amountETHMin =>
    Prod.snd <$> removeLiquidityETHSupportingFeeOnTransferTokens d block sender token liquidity
      amountTokenMin amountETHMin dst deadline c
  | .removeLiquidityWithPermit tokenA tokenB liquidity amountAMin amountBMin permission =>
    Prod.snd <$> removeLiquidityWithPermit d block sender tokenA tokenB liquidity amountAMin
      amountBMin dst deadline permission c
  | .removeLiquidityETHWithPermit token liquidity amountTokenMin amountETHMin permission =>
    Prod.snd <$> removeLiquidityETHWithPermit d block sender token liquidity amountTokenMin
      amountETHMin dst deadline permission c
  | .removeLiquidityETHWithPermitSupportingFeeOnTransferTokens token liquidity amountTokenMin
      amountETHMin permission =>
    Prod.snd <$> removeLiquidityETHWithPermitSupportingFeeOnTransferTokens d block sender token
      liquidity amountTokenMin amountETHMin dst deadline permission c
  | .swapExactTokensForTokens amountIn amountOutMin path =>
    Prod.snd <$> swapExactTokensForTokens d block sender amountIn amountOutMin path dst deadline c
  | .swapTokensForExactTokens amountOut amountInMax path =>
    Prod.snd <$> swapTokensForExactTokens d block sender amountOut amountInMax path dst deadline c
  | .swapTokensForExactETH amountOut amountInMax path =>
    Prod.snd <$> swapTokensForExactETH d block sender amountOut amountInMax path dst deadline c
  | .swapExactTokensForETH amountIn amountOutMin path =>
    Prod.snd <$> swapExactTokensForETH d block sender amountIn amountOutMin path dst deadline c
  | .swapExactTokensForTokensSupportingFeeOnTransferTokens amountIn amountOutMin path =>
    swapExactTokensForTokensSupportingFeeOnTransferTokens d block sender amountIn amountOutMin path
      dst deadline c
  | .swapExactTokensForETHSupportingFeeOnTransferTokens amountIn amountOutMin path =>
    swapExactTokensForETHSupportingFeeOnTransferTokens d block sender amountIn amountOutMin path dst
      deadline c

/-- The chain after a call with `value`, which the router has received before it
runs, and what was wrapped of it: an amount that the call returns, or all. -/
def executePayable (value : ℕ) (c : Chain) : PayableCall → Except Revert (ℕ × Chain)
  | .addLiquidityETH token amountTokenDesired amountTokenMin amountETHMin => do
    let c ← c.pay sender d.router value
    let ((_, amountETH, _), c) ← addLiquidityETH d block sender value token amountTokenDesired
      amountTokenMin amountETHMin dst deadline c
    return (amountETH, c)
  | .swapExactETHForTokens amountOutMin path => do
    let c ← c.pay sender d.router value
    let (amounts, c) ← swapExactETHForTokens d block value amountOutMin path dst deadline c
    let wrapped ← index amounts 0
    return (wrapped, c)
  | .swapETHForExactTokens amountOut path => do
    let c ← c.pay sender d.router value
    let (amounts, c) ← swapETHForExactTokens d block sender value amountOut path dst deadline c
    let wrapped ← index amounts 0
    return (wrapped, c)
  | .swapExactETHForTokensSupportingFeeOnTransferTokens amountOutMin path => do
    let c ← c.pay sender d.router value
    let c ← swapExactETHForTokensSupportingFeeOnTransferTokens d block value amountOutMin path dst
      deadline c
    return (value, c)

end Entry

theorem last_ok_iff {α : Type} {xs : List α} {x : α} :
    last xs = .ok x ↔ xs.getLast? = some x := by
  rw [last, List.getLast?_eq_getElem?]
  cases xs with
  | nil => simp [checkedSub]
  | cons y ys => simp [checkedSub]

end EnergyChain.Dex.Router
