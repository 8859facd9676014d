import EnergyChain.Dex.Pair
import EnergyChain.Dex.WECY

/-!
# The contracts of the exchange

The part of the chain the exchange lives in: native balances, the contract at
each address and the storage of the factory. Tokens are standard tokens, WECY or
the liquidity tokens of pairs. A call of a pair runs its function on the
contracts it reads and writes.
-/

namespace EnergyChain.Dex

/-- The contract at an address. A pair knows the address it was deployed at; an
address without code counts as a token that nobody has. -/
inductive Contract (self : Address) where
  | token (storage : ERC20)
  | wecy (storage : WECY)
  | pair (pool : Pool) (deployed : pool.pair = self) (storage : PairStorage)

namespace Contract

variable {self : Address}

/-- The contract as a token, given its native balance. -/
def erc20 (native : ℕ) : Contract self → ERC20
  | token t => t
  | wecy w => w.erc20 native
  | pair _ _ p => p.toERC20

def withToken (t : ERC20) : Contract self → Contract self
  | token _ => .token t
  | wecy _ => .wecy ⟨t.balanceOf, t.allowance⟩
  | pair pool deployed p => .pair pool deployed (p.withToken t)

end Contract

/-- The storage of `UniswapV2Factory`. -/
structure Factory extends FeeSetting where
  getPair : Address → Address → Address
  allPairs : List Address

/-- The last lines of `createPair`. -/
def Factory.register (f : Factory) (token0 token1 pair : Address) : Factory :=
  let getPair := Function.update f.getPair token0 (Function.update (f.getPair token0) token1 pair)
  let getPair := Function.update getPair token1 (Function.update (getPair token1) token0 pair)
  { f with getPair, allPairs := f.allPairs ++ [pair] }

/-- The constructor of the factory. -/
def Factory.deployed (feeToSetter : Address) : Factory :=
  { feeTo := .zero, feeToSetter, getPair := fun _ _ => .zero, allPairs := [] }

structure Chain where
  native : Address → ℕ
  contract : ∀ a, Contract a
  factory : Factory

/-- The chain when nothing has been deployed or issued. -/
def Chain.initial (feeToSetter : Address) : Chain :=
  { native := fun _ => 0, contract := fun _ => .token ERC20.initial
    factory := .deployed feeToSetter }

namespace Chain

variable (c : Chain)

def token (a : Address) : ERC20 := (c.contract a).erc20 (c.native a)

def balanceOf (token owner : Address) : ℕ := (c.token token).balanceOf owner

def allowance (token owner spender : Address) : ℕ := (c.token token).allowance owner spender

def setContract (a : Address) (k : Contract a) : Chain :=
  { c with contract := Function.update c.contract a k }

def setPair (pool : Pool) (p : PairStorage) : Chain := c.setContract pool.pair (.pair pool rfl p)

def setToken (a : Address) (t : ERC20) : Chain := c.setContract a ((c.contract a).withToken t)

/-! ### Calls of contracts -/

def transfer (token sender dst : Address) (value : ℕ) : Except Revert Chain :=
  match c.contract token with
  | .wecy w => do
    let w ← w.transfer sender dst value
    return c.setContract token (.wecy w)
  | _ => do
    let t ← (c.token token).transfer sender dst value
    return c.setToken token t

def transferFrom (token sender src dst : Address) (value : ℕ) : Except Revert Chain :=
  match c.contract token with
  | .wecy w => do
    let w ← w.transferFrom sender src dst value
    return c.setContract token (.wecy w)
  | _ => do
    let t ← (c.token token).transferFrom sender src dst value
    return c.setToken token t

/-- What a pair reads and writes of the chain. -/
def world (pool : Pool) (p : PairStorage) : World :=
  { pair := p, token0 := c.token pool.token0, token1 := c.token pool.token1
    factory := c.factory.toFeeSetting }

/-- The chain after a pair has written its storage and its tokens. -/
def write (pool : Pool) (w : World) : Chain :=
  let c := c.setContract pool.pair (.pair pool rfl w.pair)
  let c := c.setToken pool.token0 w.token0
  c.setToken pool.token1 w.token1

/-- A call of a function of a pair; it fails where there is no pair. -/
def callPair {α : Type} (pair : Address) (f : Pool → World → Except Revert (α × World)) :
    Except Revert (α × Chain) :=
  match c.contract pair with
  | .pair pool _ p => do
    let (result, w) ← f pool (c.world pool p)
    return (result, c.write pool w)
  | _ => .error (.error [])

/-- A pair's `getReserves`, without the time. -/
def getReserves (pair : Address) : Except Revert (ℕ × ℕ) :=
  match c.contract pair with
  | .pair _ _ p => .ok (p.reserve0, p.reserve1)
  | _ => .error (.error [])

def pay (src dst : Address) (value : ℕ) : Except Revert Chain :=
  if value ≤ c.native src then .ok { c with native := Ledger.move c.native src dst value }
  else .error (.error [])

end Chain

/-- Where the exchange is deployed, and what it uses of its surroundings: the hash
and signature functions, the addresses that `create2` gives for a salt, and which
other accounts take a plain payment, for which they get too little gas to make
calls. -/
structure Deployment where
  keccak256 : Bytes → Bytes
  ecrecover : Bytes → Signature → Address
  chainid : ℕ
  create2 : Bytes → Address
  accepts : Address → Bool
  router : Address
  weth : Address
  router_ne_zero : router ≠ .zero
  router_ne_weth : router ≠ weth
  create2_ne_zero : ∀ salt, create2 salt ≠ .zero
  create2_ne_router : ∀ salt, create2 salt ≠ router
  create2_ne_weth : ∀ salt, create2 salt ≠ weth

namespace Deployment

variable (d : Deployment)

/-! ### Factory -/

/-- `keccak256(abi.encodePacked(token0, token1))` -/
def salt (token0 token1 : Address) : Bytes :=
  d.keccak256 (bigEndian 20 token0.index ++ bigEndian 20 token1.index)

/-- The addresses of the pair that `create2` deploys for two sorted tokens. The
address of a contract is never that of one its salt was made from. -/
def newPool (token0 token1 : Address) : Option Pool :=
  let pair := d.create2 (d.salt token0 token1)
  if h : token0 ≠ .zero ∧ token0 < token1 ∧ pair ≠ token0 ∧ pair ≠ token1 then
    some
      { pair, token0, token1, pair_ne_zero := d.create2_ne_zero _, token0_ne_zero := h.1
        token0_lt_token1 := h.2.1, pair_ne_token0 := h.2.2.1, pair_ne_token1 := h.2.2.2 }
  else none

/-- Where there is a pair already `create2` gives the zero address, and the call
of `initialize` fails. Other contracts are not at the addresses it gives. -/
def deploy (token0 token1 : Address) (c : Chain) : Except Revert (Address × Chain) :=
  match d.newPool token0 token1 with
  | none => .error (.error [])
  | some pool =>
    match c.contract pool.pair with
    | .pair _ _ _ => .error (.error [])
    | _ =>
      let storage := PairStorage.deployed d.keccak256 d.chainid pool.pair
      .ok (pool.pair, c.setContract pool.pair (.pair pool rfl storage))

def createPair (tokenA tokenB : Address) (c : Chain) : Except Revert (Address × Chain) := do
  require (tokenA ≠ tokenB) "UniswapV2: IDENTICAL_ADDRESSES"
  let (token0, token1) := if tokenA < tokenB then (tokenA, tokenB) else (tokenB, tokenA)
  require (token0 ≠ .zero) "UniswapV2: ZERO_ADDRESS"
  require (c.factory.getPair token0 token1 = .zero) "UniswapV2: PAIR_EXISTS"
  let (pair, c) ← d.deploy token0 token1 c
  return (pair, { c with factory := c.factory.register token0 token1 pair })

/-! ### Native payments -/

def deposit (sender : Address) (value : ℕ) (c : Chain) : Except Revert Chain := do
  let c ← c.pay sender d.weth value
  match c.contract d.weth with
  | .wecy w => do
    let w ← w.deposit sender value
    return c.setContract d.weth (.wecy w)
  | _ => .error (.error [])

/-- `payable(dst).transfer(value)`: the router takes payments of WECY only, and
WECY takes them for deposits. -/
def transferNative (sender dst : Address) (value : ℕ) (c : Chain) : Except Revert Chain :=
  if dst = d.router then do
    let c ← c.pay sender dst value
    assert (sender = d.weth)
    return c
  else if dst = d.weth then d.deposit sender value c
  else if d.accepts dst then c.pay sender dst value
  else .error (.error [])

def withdraw (sender : Address) (wad : ℕ) (c : Chain) : Except Revert Chain :=
  match c.contract d.weth with
  | .wecy w => do
    let w ← w.withdraw sender wad
    d.transferNative d.weth sender wad (c.setContract d.weth (.wecy w))
  | _ => .error (.error [])

end Deployment
end EnergyChain.Dex
