import EnergyChain.Dex.ERC20
import EnergyChain.Dex.Math

/-!
# UniswapV2Pair

The liquidity pool of two tokens: `mint`, `burn`, `swap`, `skim` and `sync`
behind the reentrancy lock, the protocol fee, the price accumulators, and
`permit` of the liquidity token. The functions work on the part of the chain a
pair reads and writes: its storage, the two tokens and the fee setting of the
factory. Events are left out.
-/

namespace EnergyChain.Dex

/-- The addresses of a pair, its own and the tokens it was initialized with.
The factory sorts the tokens. -/
structure Pool where
  pair : Address
  token0 : Address
  token1 : Address
  pair_ne_zero : pair ≠ .zero
  token0_ne_zero : token0 ≠ .zero
  token0_lt_token1 : token0 < token1
  pair_ne_token0 : pair ≠ token0
  pair_ne_token1 : pair ≠ token1

/-- The storage of `UniswapV2ERC20` and `UniswapV2Pair`. -/
structure PairStorage extends ERC20 where
  domainSeparator : Bytes
  nonces : Address → ℕ
  reserve0 : ℕ
  reserve1 : ℕ
  blockTimestampLast : ℕ
  price0CumulativeLast : ℕ
  price1CumulativeLast : ℕ
  kLast : ℕ
  unlocked : ℕ

/-- The part of `UniswapV2Factory` its pairs depend on. -/
structure FeeSetting where
  feeTo : Address
  feeToSetter : Address

/-- What a pair reads and writes. -/
structure World where
  pair : PairStorage
  token0 : ERC20
  token1 : ERC20
  factory : FeeSetting

def minimumLiquidity : ℕ := 10 ^ 3

def PairStorage.withToken (p : PairStorage) (t : ERC20) : PairStorage := { p with toERC20 := t }

def World.withPair (w : World) (p : PairStorage) : World := { w with pair := p }

/-! ### Deployment and permit -/

section Permit

variable (keccak256 : Bytes → Bytes)

/-- A word of `abi.encode`. -/
def word (n : ℕ) : Bytes := bigEndian 32 n

def permitTypehash : Bytes := keccak256 (ascii
  "Permit(address owner,address spender,uint256 value,uint256 nonce,uint256 deadline)")

def domainSeparatorOf (chainid : ℕ) (self : Address) : Bytes :=
  keccak256 (keccak256 (ascii
      "EIP712Domain(string name,string version,uint256 chainId,address verifyingContract)") ++
    keccak256 (ascii "EnergySwap LP") ++ keccak256 (ascii "1") ++ word chainid ++
    word self.index)

/-- The storage after the constructor. -/
def PairStorage.deployed (chainid : ℕ) (self : Address) : PairStorage :=
  { toERC20 := ERC20.initial, domainSeparator := domainSeparatorOf keccak256 chainid self
    nonces := fun _ => 0, reserve0 := 0, reserve1 := 0, blockTimestampLast := 0
    price0CumulativeLast := 0, price1CumulativeLast := 0, kLast := 0, unlocked := 1 }

structure Signature where
  v : UInt8
  r : Bytes32
  s : Bytes32

/-- The arguments of `permit` that are signed. -/
structure PermitMessage where
  owner : Address
  spender : Address
  value : ℕ
  deadline : ℕ

def PermitMessage.digest (m : PermitMessage) (domainSeparator : Bytes) (nonce : ℕ) : Bytes :=
  keccak256 ([0x19, 0x01] ++ domainSeparator ++
    keccak256 (permitTypehash keccak256 ++ word m.owner.index ++ word m.spender.index ++
      word m.value ++ word nonce ++ word m.deadline))

def PairStorage.permit (ecrecover : Bytes → Signature → Address) (block : Block)
    (m : PermitMessage) (signature : Signature) (p : PairStorage) :
    Except Revert PairStorage := do
  require (m.deadline ≥ block.timestamp) "UniswapV2: EXPIRED"
  let nonce ← checkedAdd (p.nonces m.owner) 1
  let recoveredAddress :=
    ecrecover (m.digest keccak256 p.domainSeparator (p.nonces m.owner)) signature
  require (recoveredAddress ≠ .zero ∧ recoveredAddress = m.owner) "UniswapV2: INVALID_SIGNATURE"
  let p := { p with nonces := Function.update p.nonces m.owner nonce }
  return p.withToken (p.toERC20.approve m.owner m.spender m.value)

end Permit

/-! ### Reserves and prices -/

/-- `UQ112x112.encode`; the operand has 112 bits, so the product fits. -/
def encode (y : ℕ) : ℕ := y * 2 ^ 112

/-- `UQ112x112.uqdiv`; the callers check the divisor. -/
def uqdiv (x y : ℕ) : ℕ := x / y

/-- `blockTimestamp - blockTimestampLast`, unchecked in `uint32`. -/
def elapsed (blockTimestamp blockTimestampLast : ℕ) : ℕ :=
  (blockTimestamp + (2 ^ 32 - blockTimestampLast % 2 ^ 32)) % 2 ^ 32

/-- An accumulator after `timeElapsed` seconds at one price, unchecked. -/
def accumulate (cumulative priced other timeElapsed : ℕ) : ℕ :=
  (cumulative + uqdiv (encode other) priced * timeElapsed) % uint256Size

/-- The accumulators before new reserves are stored. -/
def accumulatePrices (blockTimestamp reserve0 reserve1 : ℕ) (p : PairStorage) : PairStorage :=
  let timeElapsed := elapsed blockTimestamp p.blockTimestampLast
  if timeElapsed > 0 ∧ reserve0 ≠ 0 ∧ reserve1 ≠ 0 then
    { p with
      price0CumulativeLast := accumulate p.price0CumulativeLast reserve0 reserve1 timeElapsed
      price1CumulativeLast := accumulate p.price1CumulativeLast reserve1 reserve0 timeElapsed }
  else p

/-- `_update` -/
def update (block : Block) (balance0 balance1 reserve0 reserve1 : ℕ) (p : PairStorage) :
    Except Revert PairStorage := do
  require (balance0 ≤ 2 ^ 112 - 1 ∧ balance1 ≤ 2 ^ 112 - 1) "UniswapV2: OVERFLOW"
  let blockTimestamp := block.timestamp % 2 ^ 32
  -- The balances have 112 bits here, so the casts keep them.
  return { accumulatePrices blockTimestamp reserve0 reserve1 p with
    reserve0 := balance0, reserve1 := balance1, blockTimestampLast := blockTimestamp }

/-! ### Protocol fee -/

/-- The fee liquidity of `_mintFee` for the two roots. -/
def feeLiquidity (totalSupply rootK rootKLast : ℕ) : Except Revert ℕ := do
  let growth ← checkedSub rootK rootKLast
  let numerator ← checkedMul totalSupply growth
  let fiveRoots ← checkedMul rootK 5
  let denominator ← checkedAdd fiveRoots rootKLast
  checkedDiv numerator denominator

/-- `if (liquidity > 0) _mint(feeTo, liquidity)` -/
def mintPositive (dst : Address) (liquidity : ℕ) (p : PairStorage) :
    Except Revert PairStorage :=
  if liquidity > 0 then do
    let t ← p.toERC20.mint dst liquidity
    return p.withToken t
  else .ok p

/-- `_mintFee` with the fee on and `kLast` set. -/
def mintGrowthFee (feeTo : Address) (reserve0 reserve1 : ℕ) (p : PairStorage) :
    Except Revert PairStorage := do
  let k ← checkedMul reserve0 reserve1
  let rootK ← sqrt k
  let rootKLast ← sqrt p.kLast
  if rootK > rootKLast then do
    let liquidity ← feeLiquidity p.totalSupply rootK rootKLast
    mintPositive feeTo liquidity p
  else .ok p

/-- `_mintFee`; returns whether the fee is on. -/
def mintFee (factory : FeeSetting) (reserve0 reserve1 : ℕ) (p : PairStorage) :
    Except Revert (Bool × PairStorage) :=
  if factory.feeTo ≠ .zero then do
    let p ← if p.kLast ≠ 0 then mintGrowthFee factory.feeTo reserve0 reserve1 p else .ok p
    return (true, p)
  else .ok (false, if p.kLast ≠ 0 then { p with kLast := 0 } else p)

/-- `if (feeOn) kLast = uint256(reserve0) * reserve1` -/
def recordK (feeOn : Bool) (p : PairStorage) : Except Revert PairStorage :=
  if feeOn then do
    let k ← checkedMul p.reserve0 p.reserve1
    return { p with kLast := k }
  else .ok p

/-! ### The locked functions -/

/-- The modifier `lock`. -/
def lock {α : Type} (body : World → Except Revert (α × World)) (w : World) :
    Except Revert (α × World) := do
  require (w.pair.unlocked = 1) "UniswapV2: LOCKED"
  let (result, w) ← body (w.withPair { w.pair with unlocked := 0 })
  return (result, w.withPair { w.pair with unlocked := 1 })

/-- `_safeTransfer`; a failed call of the token is reported as its own error. -/
def safeTransfer (t : ERC20) (src dst : Address) (value : ℕ) : Except Revert ERC20 :=
  match t.transfer src dst value with
  | .ok t' => .ok t'
  | .error _ => .error (.error (ascii "UniswapV2: TRANSFER_FAILED"))

/-- The liquidity that `mint` gives for two amounts; the first mint locks the
minimum. -/
def mintLiquidity (amount0 amount1 reserve0 reserve1 : ℕ) (p : PairStorage) :
    Except Revert (ℕ × PairStorage) :=
  if p.totalSupply = 0 then do
    let product ← checkedMul amount0 amount1
    let root ← sqrt product
    let liquidity ← checkedSub root minimumLiquidity
    let t ← p.toERC20.mint .zero minimumLiquidity
    return (liquidity, p.withToken t)
  else do
    let product0 ← checkedMul amount0 p.totalSupply
    let liquidity0 ← checkedDiv product0 reserve0
    let product1 ← checkedMul amount1 p.totalSupply
    let liquidity1 ← checkedDiv product1 reserve1
    return (min liquidity0 liquidity1, p)

namespace Pool

variable (pool : Pool)

def balance0 (w : World) : ℕ := w.token0.balanceOf pool.pair

def balance1 (w : World) : ℕ := w.token1.balanceOf pool.pair

/-- Returns the liquidity. -/
def mint (block : Block) (dst : Address) : World → Except Revert (ℕ × World) := lock fun w => do
  let reserve0 := w.pair.reserve0
  let reserve1 := w.pair.reserve1
  let balance0 := pool.balance0 w
  let balance1 := pool.balance1 w
  let amount0 ← checkedSub balance0 reserve0
  let amount1 ← checkedSub balance1 reserve1
  let (feeOn, p) ← mintFee w.factory reserve0 reserve1 w.pair
  let (liquidity, p) ← mintLiquidity amount0 amount1 reserve0 reserve1 p
  require (liquidity > 0) "UniswapV2: INSUFFICIENT_LIQUIDITY_MINTED"
  let t ← p.toERC20.mint dst liquidity
  let p ← update block balance0 balance1 reserve0 reserve1 (p.withToken t)
  let p ← recordK feeOn p
  return (liquidity, w.withPair p)

/-- Returns the two amounts. -/
def burn (block : Block) (dst : Address) : World → Except Revert ((ℕ × ℕ) × World) :=
  lock fun w => do
  let reserve0 := w.pair.reserve0
  let reserve1 := w.pair.reserve1
  let liquidity := w.pair.balanceOf pool.pair
  let (feeOn, p) ← mintFee w.factory reserve0 reserve1 w.pair
  let product0 ← checkedMul liquidity (pool.balance0 w)
  let amount0 ← checkedDiv product0 p.totalSupply
  let product1 ← checkedMul liquidity (pool.balance1 w)
  let amount1 ← checkedDiv product1 p.totalSupply
  require (amount0 > 0 ∧ amount1 > 0) "UniswapV2: INSUFFICIENT_LIQUIDITY_BURNED"
  let t ← p.toERC20.burn pool.pair liquidity
  let token0 ← safeTransfer w.token0 pool.pair dst amount0
  let token1 ← safeTransfer w.token1 pool.pair dst amount1
  let w := { w with token0, token1 }
  let p ← update block (pool.balance0 w) (pool.balance1 w) reserve0 reserve1 (p.withToken t)
  let p ← recordK feeOn p
  return ((amount0, amount1), w.withPair p)

/-- `if (amountOut > 0) _safeTransfer(token, to, amountOut)` -/
def payOut (t : ERC20) (dst : Address) (amountOut : ℕ) : Except Revert ERC20 :=
  if amountOut > 0 then safeTransfer t pool.pair dst amountOut else .ok t

/-- The amount of a token that came in with a swap. -/
def amountIn (balance reserve amountOut : ℕ) : Except Revert ℕ := do
  let kept ← checkedSub reserve amountOut
  if balance > kept then checkedSub balance kept else .ok 0

/-- A balance in thousandths, less the fee on what came in. -/
def balanceAdjusted (balance amountIn : ℕ) : Except Revert ℕ := do
  let thousandths ← checkedMul balance 1000
  let fee ← checkedMul amountIn 3
  checkedSub thousandths fee

/-- `if (data.length > 0) IUniswapV2Callee(to).uniswapV2Call(…)`; the callee is
code outside the exchange. -/
def call (data : Bytes) (callee : World → Except Revert World) (w : World) :
    Except Revert World :=
  if data.length > 0 then callee w else .ok w

def swap (block : Block) (amount0Out amount1Out : ℕ) (dst : Address) (data : Bytes)
    (callee : World → Except Revert World) : World → Except Revert (Unit × World) :=
  lock fun w => do
  require (amount0Out > 0 ∨ amount1Out > 0) "UniswapV2: INSUFFICIENT_OUTPUT_AMOUNT"
  let reserve0 := w.pair.reserve0
  let reserve1 := w.pair.reserve1
  require (amount0Out < reserve0 ∧ amount1Out < reserve1) "UniswapV2: INSUFFICIENT_LIQUIDITY"
  require (dst ≠ pool.token0 ∧ dst ≠ pool.token1) "UniswapV2: INVALID_TO"
  let token0 ← pool.payOut w.token0 dst amount0Out
  let token1 ← pool.payOut w.token1 dst amount1Out
  let w ← call data callee { w with token0, token1 }
  let balance0 := pool.balance0 w
  let balance1 := pool.balance1 w
  let amount0In ← amountIn balance0 reserve0 amount0Out
  let amount1In ← amountIn balance1 reserve1 amount1Out
  require (amount0In > 0 ∨ amount1In > 0) "UniswapV2: INSUFFICIENT_INPUT_AMOUNT"
  let balance0Adjusted ← balanceAdjusted balance0 amount0In
  let balance1Adjusted ← balanceAdjusted balance1 amount1In
  let adjusted ← checkedMul balance0Adjusted balance1Adjusted
  let product ← checkedMul reserve0 reserve1
  let required ← checkedMul product (1000 ^ 2)
  require (adjusted ≥ required) "UniswapV2: K"
  let p ← update block balance0 balance1 reserve0 reserve1 w.pair
  return ((), w.withPair p)

def skim (dst : Address) : World → Except Revert (Unit × World) := lock fun w => do
  let excess0 ← checkedSub (pool.balance0 w) w.pair.reserve0
  let token0 ← safeTransfer w.token0 pool.pair dst excess0
  let excess1 ← checkedSub (pool.balance1 w) w.pair.reserve1
  let token1 ← safeTransfer w.token1 pool.pair dst excess1
  return ((), { w with token0, token1 })

def sync (block : Block) : World → Except Revert (Unit × World) := lock fun w => do
  let p ← update block (pool.balance0 w) (pool.balance1 w) w.pair.reserve0 w.pair.reserve1 w.pair
  return ((), w.withPair p)

end Pool

/-! ### The fee setting -/

def FeeSetting.setFeeTo (sender feeTo : Address) (s : FeeSetting) : Except Revert FeeSetting := do
  require (sender = s.feeToSetter) "UniswapV2: FORBIDDEN"
  return { s with feeTo }

def FeeSetting.setFeeToSetter (sender feeToSetter : Address) (s : FeeSetting) :
    Except Revert FeeSetting := do
  require (sender = s.feeToSetter) "UniswapV2: FORBIDDEN"
  return { s with feeToSetter }

end EnergyChain.Dex
