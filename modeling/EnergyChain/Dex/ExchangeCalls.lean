import EnergyChain.Dex.Router
import EnergyChain.Foundations.MessageRuns

/-!
# Calls of the exchange

Everything that can happen to the exchange as a whole: calls of the router, of any
pair, of the factory and of any token, and native payments. A flash swap calls back
code that makes calls of the same kind while its pair, and no other, is locked.
-/

namespace EnergyChain.Dex

/-- An account that is none of the exchange's own. -/
structure Deployment.Outsider (d : Deployment) where
  address : Address
  ne_zero : address ≠ .zero
  ne_pair : ∀ salt, address ≠ d.create2 salt
  ne_router : address ≠ d.router
  ne_weth : address ≠ d.weth

/-- What is known of a call: whether the fee stays with who takes it, and which
accounts have no part in it. -/
structure Deployment.Terms (d : Deployment) where
  feeKept : Prop
  idle : d.Outsider → Prop

/-- A transaction, or a call that the callback of a flash swap makes. -/
inductive ExchangeCall (d : Deployment) where
  | nonpayable (sender : d.Outsider) (call : Router.NonpayableCall) (dst : Address) (deadline : ℕ)
  | payable (sender : d.Outsider) (call : Router.PayableCall) (dst : Address)
      (deadline value : ℕ)
  | mint (pair dst : Address)
  | burn (pair dst : Address)
  | swap (pair : Address) (amount0Out amount1Out : ℕ) (dst : Address) (data : Bytes)
      (callback : List (ExchangeCall d))
  | skim (pair dst : Address)
  | sync (pair : Address)
  | permit (pair : Address) (message : PermitMessage) (signature : Signature)
  | createPair (tokenA tokenB : Address)
  | setFeeTo (sender : d.Outsider) (feeTo : Address)
  | setFeeToSetter (sender : d.Outsider) (feeToSetter : Address)
  | approve (sender : d.Outsider) (token spender : Address) (value : ℕ)
  | transfer (sender : d.Outsider) (token dst : Address) (value : ℕ)
  | transferFrom (sender : d.Outsider) (token src dst : Address) (value : ℕ)
  | issue (token : d.Outsider) (dst : Address) (value : ℕ)
  | redeem (sender token : d.Outsider) (value : ℕ)
  | deposit (sender : d.Outsider) (value : ℕ)
  | withdraw (sender : d.Outsider) (wad : ℕ)
  | send (sender : d.Outsider) (dst : Address) (value : ℕ)

/-! ### The two halves of a swap -/

namespace Pool

variable (pool : Pool)

/-- `swap` up to the callback: the pair is locked and has paid. -/
def beginSwap (amount0Out amount1Out : ℕ) (dst : Address) (w : World) : Except Revert World := do
  require (w.pair.unlocked = 1) "UniswapV2: LOCKED"
  let w := w.withPair { w.pair with unlocked := 0 }
  require (amount0Out > 0 ∨ amount1Out > 0) "UniswapV2: INSUFFICIENT_OUTPUT_AMOUNT"
  require (amount0Out < w.pair.reserve0 ∧ amount1Out < w.pair.reserve1)
    "UniswapV2: INSUFFICIENT_LIQUIDITY"
  require (dst ≠ pool.token0 ∧ dst ≠ pool.token1) "UniswapV2: INVALID_TO"
  let token0 ← pool.payOut w.token0 dst amount0Out
  let token1 ← pool.payOut w.token1 dst amount1Out
  return { w with token0, token1 }

/-- `swap` from the callback on, with the reserves that were read before it. -/
def endSwap (block : Block) (reserve0 reserve1 amount0Out amount1Out : ℕ) (w : World) :
    Except Revert World := do
  let balance0 := pool.balance0 w
  let balance1 := pool.balance1 w
  let amount0In ← amountIn balance0 reserve0 amount0Out
  let amount1In ← amountIn balance1 reserve1 amount1Out
  require (amount0In > 0 ∨ amount1In > 0) "UniswapV2: INSUFFICIENT_INPUT_AMOUNT"
  let balance0Adjusted ← balanceAdjusted balance0 amount0In
  let balance1Adjusted ← balanceAdjusted balance1 amount1In
  let adjusted ← checkedMul balance0Adjusted balance1Adjusted
  let product ← checkedMul reserve0 reserve1
  let required ← checkedMul product (1000 ^ 2)
  require (adjusted ≥ required) "UniswapV2: K"
  let p ← update block balance0 balance1 reserve0 reserve1 w.pair
  return w.withPair { p with unlocked := 1 }

theorem swap_eq (block : Block) (amount0Out amount1Out : ℕ) (dst : Address) (data : Bytes)
    (callee : World → Except Revert World) (w : World) :
    pool.swap block amount0Out amount1Out dst data callee w = (do
      let w₁ ← pool.beginSwap amount0Out amount1Out dst w
      let w₂ ← call data callee w₁
      let w₃ ← pool.endSwap block w.pair.reserve0 w.pair.reserve1 amount0Out amount1Out w₂
      return ((), w₃)) := by
  simp only [swap, lock, beginSwap, endSwap, bind_assoc, pure_bind]
  rfl

end Pool

namespace Chain

/-- A call of a pair's `swap`. The callee of a flash swap finds the chain as the pair
has left it so far, and the pair goes on with the chain that the callee leaves. -/
def callSwap (block : Block) (pair : Address) (amount0Out amount1Out : ℕ) (dst : Address)
    (data : Bytes) (callee : Chain → Chain) (c : Chain) : Except Revert Chain :=
  match c.contract pair with
  | .pair pool _ p => do
    let w ← pool.beginSwap amount0Out amount1Out dst (c.world pool p)
    let c := c.write pool w
    let c := if data.length > 0 then callee c else c
    let (_, c) ← c.callPair pair fun pool w => do
      let w ← pool.endSwap block p.reserve0 p.reserve1 amount0Out amount1Out w
      return ((), w)
    return c
  | _ => .error (.error [])

/-! ### Calls of tokens and of the factory -/

def approve (token sender spender : Address) (value : ℕ) (c : Chain) : Chain :=
  match c.contract token with
  | .wecy w => c.setContract token (.wecy (w.approve sender spender value))
  | _ => c.setToken token ((c.token token).approve sender spender value)

/-- A call that only standard tokens have. -/
def callToken (token : Address) (f : ERC20 → Except Revert ERC20) (c : Chain) :
    Except Revert Chain :=
  match c.contract token with
  | .token t => do
    let t ← f t
    return c.setContract token (.token t)
  | _ => .error (.error [])

/-- A call of the factory that changes the fee setting. -/
def callFactory (f : FeeSetting → Except Revert FeeSetting) (c : Chain) : Except Revert Chain := do
  let setting ← f c.factory.toFeeSetting
  return { c with factory := { c.factory with toFeeSetting := setting } }

end Chain

/-! ### Execution -/

namespace Deployment

variable (d : Deployment) (block : Block)

mutual

def execute : ExchangeCall d → Chain → Except Revert Chain
  | .nonpayable sender call dst deadline, c =>
    Router.executeNonpayable d block sender.address dst deadline c call
  | .payable sender call dst deadline value, c => do
    let (_, c) ← Router.executePayable d block sender.address dst deadline value c call
    return c
  | .mint pair dst, c => do
    let (_, c) ← c.callPair pair fun pool => pool.mint block dst
    return c
  | .burn pair dst, c => do
    let (_, c) ← c.callPair pair fun pool => pool.burn block dst
    return c
  | .swap pair amount0Out amount1Out dst data callback, c =>
    c.callSwap block pair amount0Out amount1Out dst data (fun c => executeAll callback c)
  | .skim pair dst, c => do
    let (_, c) ← c.callPair pair fun pool => pool.skim dst
    return c
  | .sync pair, c => do
    let (_, c) ← c.callPair pair fun pool => pool.sync block
    return c
  | .permit pair message signature, c => do
    let (_, c) ← c.callPair pair fun _ w => do
      let storage ← w.pair.permit d.keccak256 d.ecrecover block message signature
      return ((), w.withPair storage)
    return c
  | .createPair tokenA tokenB, c => do
    let (_, c) ← d.createPair tokenA tokenB c
    return c
  | .setFeeTo sender feeTo, c => c.callFactory fun s => s.setFeeTo sender.address feeTo
  | .setFeeToSetter sender feeToSetter, c =>
    c.callFactory fun s => s.setFeeToSetter sender.address feeToSetter
  | .approve sender token spender value, c => .ok (c.approve token sender.address spender value)
  | .transfer sender token dst value, c => c.transfer token sender.address dst value
  | .transferFrom sender token src dst value, c => c.transferFrom token sender.address src dst value
  | .issue token dst value, c => c.callToken token.address fun t => t.mint dst value
  | .redeem sender token value, c => c.callToken token.address fun t => t.burn sender.address value
  | .deposit sender value, c => d.deposit sender.address value c
  | .withdraw sender wad, c => d.withdraw sender.address wad c
  | .send sender dst value, c => d.transferNative sender.address dst value c

/-- Calls made one after the other by a callback, which goes on when one of
them reverts. -/
def executeAll : List (ExchangeCall d) → Chain → Chain
  | [], c => c
  | call :: calls, c =>
    executeAll calls (match execute call c with
      | .ok c' => c'
      | .error _ => c)

end

def deliver : Handler Chain (Block × ExchangeCall d) Revert Unit := fun c m =>
  match d.execute m.1 m.2 c with
  | .ok c' => (c', .ok ())
  | .error e => (c, .error e)

end Deployment

namespace ExchangeCall

variable {d : Deployment}

mutual

/-- The call, or one of its callback, says who takes the protocol fee. -/
def setsFee : ExchangeCall d → Bool
  | .setFeeTo _ _ => true
  | .swap _ _ _ _ _ callback => setsFeeAny callback
  | _ => false

def setsFeeAny : List (ExchangeCall d) → Bool
  | [] => false
  | call :: calls => call.setsFee || setsFeeAny calls

end

mutual

/-- The account makes the call, or one of its callback, or has signed a permit for it. -/
def involves (a : Address) : ExchangeCall d → Bool
  | .nonpayable sender _ _ _ => sender.address = a
  | .payable sender _ _ _ _ => sender.address = a
  | .mint _ _ => false
  | .burn _ _ => false
  | .swap _ _ _ _ _ callback => involvesAny a callback
  | .skim _ _ => false
  | .sync _ => false
  | .permit _ message _ => message.owner = a
  | .createPair _ _ => false
  | .setFeeTo sender _ => sender.address = a
  | .setFeeToSetter sender _ => sender.address = a
  | .approve sender _ _ _ => sender.address = a
  | .transfer sender _ _ _ => sender.address = a
  | .transferFrom sender _ _ _ _ => sender.address = a
  | .issue _ _ _ => false
  | .redeem sender _ _ => sender.address = a
  | .deposit sender _ => sender.address = a
  | .withdraw sender _ => sender.address = a
  | .send sender _ _ => sender.address = a

def involvesAny (a : Address) : List (ExchangeCall d) → Bool
  | [] => false
  | call :: calls => call.involves a || involvesAny a calls

end

def terms (call : ExchangeCall d) : d.Terms :=
  { feeKept := call.setsFee = false, idle := fun a => call.involves a.address = false }

def termsAll (calls : List (ExchangeCall d)) : d.Terms :=
  { feeKept := setsFeeAny calls = false, idle := fun a => involvesAny a.address calls = false }

def termsOfRun (ms : List (Block × ExchangeCall d)) : d.Terms :=
  { feeKept := ∀ m ∈ ms, m.2.setsFee = false
    idle := fun a => ∀ m ∈ ms, m.2.involves a.address = false }

end ExchangeCall

/-- No signature is that of a pair, which has no key. -/
def Deployment.Keyless (d : Deployment) : Prop :=
  ∀ digest signature salt, d.ecrecover digest signature ≠ d.create2 salt

/-- The exchange before its first call: WECY, the factory and the router have been
deployed, and nobody has tokens yet. -/
structure Deployment.Genesis (d : Deployment) where
  native : Address → ℕ
  feeToSetter : Address
  native_lt : Ledger.total native < uint256Size
  native_weth : native d.weth = 0

def Deployment.Genesis.chain {d : Deployment} (g : d.Genesis) : Chain :=
  { Chain.initial g.feeToSetter with
    native := g.native
    contract := Function.update (Chain.initial g.feeToSetter).contract d.weth
      (.wecy ⟨fun _ => 0, fun _ _ => 0⟩) }

end EnergyChain.Dex
