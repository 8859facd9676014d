import EnergyChain.Dex.Pair
import EnergyChain.Foundations.MessageRuns

/-!
# Calls around a pair

Everything that can happen to a pair and its two tokens: calls of the pair's
functions and of its liquidity token, calls of the tokens, and changes of the
fee setting. A flash swap calls back code that makes calls of the same kind
while the pair is locked.
-/

namespace EnergyChain.Dex

/-- An account that makes calls of its own. The pair makes only those of its
functions. -/
structure Caller (pool : Pool) where
  address : Address
  ne_zero : address ≠ .zero
  ne_pair : address ≠ pool.pair

/-- The calls of `IERC20` that change a token. -/
inductive TransferCall (pool : Pool) where
  | approve (sender : Caller pool) (spender : Address) (value : ℕ)
  | transfer (sender : Caller pool) (dst : Address) (value : ℕ)
  | transferFrom (sender : Caller pool) (src dst : Address) (value : ℕ)

/-- The calls of a standard token, which may also be issued and redeemed. -/
inductive TokenCall (pool : Pool) where
  | erc20 (call : TransferCall pool)
  | issue (dst : Address) (value : ℕ)
  | redeem (sender : Caller pool) (value : ℕ)

/-- The callback of a flash swap is the list of the calls that it makes. -/
inductive Call (pool : Pool) where
  | mint (dst : Address)
  | burn (dst : Address)
  | swap (amount0Out amount1Out : ℕ) (dst : Address) (data : Bytes) (callback : List (Call pool))
  | skim (dst : Address)
  | sync
  | liquidity (call : TransferCall pool)
  | permit (message : PermitMessage) (signature : Signature)
  | token0 (call : TokenCall pool)
  | token1 (call : TokenCall pool)
  | setFeeTo (sender : Caller pool) (feeTo : Address)
  | setFeeToSetter (sender : Caller pool) (feeToSetter : Address)

variable {pool : Pool}

def TransferCall.apply (t : ERC20) : TransferCall pool → Except Revert ERC20
  | .approve sender spender value => .ok (t.approve sender.address spender value)
  | .transfer sender dst value => t.transfer sender.address dst value
  | .transferFrom sender src dst value => t.transferFrom sender.address src dst value

def TokenCall.apply (t : ERC20) : TokenCall pool → Except Revert ERC20
  | .erc20 call => call.apply t
  | .issue dst value => t.mint dst value
  | .redeem sender value => t.burn sender.address value

section Execution

variable (keccak256 : Bytes → Bytes) (ecrecover : Bytes → Signature → Address) (block : Block)

mutual

/-- The state after a call that does not revert. -/
def execute : Call pool → World → Except Revert World
  | .mint dst, w => do
    let (_, w) ← pool.mint block dst w
    return w
  | .burn dst, w => do
    let (_, w) ← pool.burn block dst w
    return w
  | .swap amount0Out amount1Out dst data callback, w => do
    let (_, w) ← pool.swap block amount0Out amount1Out dst data
      (fun w => .ok (executeAll callback w)) w
    return w
  | .skim dst, w => do
    let (_, w) ← pool.skim dst w
    return w
  | .sync, w => do
    let (_, w) ← pool.sync block w
    return w
  | .liquidity call, w => do
    let t ← call.apply w.pair.toERC20
    return w.withPair (w.pair.withToken t)
  | .permit message signature, w => do
    let p ← w.pair.permit keccak256 ecrecover block message signature
    return w.withPair p
  | .token0 call, w => do
    let token0 ← call.apply w.token0
    return { w with token0 }
  | .token1 call, w => do
    let token1 ← call.apply w.token1
    return { w with token1 }
  | .setFeeTo sender feeTo, w => do
    let factory ← w.factory.setFeeTo sender.address feeTo
    return { w with factory }
  | .setFeeToSetter sender feeToSetter, w => do
    let factory ← w.factory.setFeeToSetter sender.address feeToSetter
    return { w with factory }

/-- Calls made one after the other by a callback, which goes on when one of
them reverts. -/
def executeAll : List (Call pool) → World → World
  | [], w => w
  | c :: cs, w =>
    executeAll cs (match execute c w with
      | .ok w' => w'
      | .error _ => w)

end

end Execution

/-- A standard token before the pair has made its first call. -/
structure TradedToken (pool : Pool) where
  token : ERC20
  unapproved : token.Unapproved pool.pair

/-- The chain when the pair has been deployed. -/
def World.deployed (keccak256 : Bytes → Bytes) (chainid : ℕ) (token0 token1 : TradedToken pool)
    (factory : FeeSetting) : World :=
  { pair := .deployed keccak256 chainid pool.pair, token0 := token0.token, token1 := token1.token
    factory }

/-- A transaction; when its call reverts, it changes nothing. -/
def deliver (keccak256 : Bytes → Bytes) (ecrecover : Bytes → Signature → Address) :
    Handler World (Block × Call pool) Revert Unit := fun w m =>
  match execute keccak256 ecrecover m.1 m.2 w with
  | .ok w' => (w', .ok ())
  | .error e => (w, .error e)

end EnergyChain.Dex
