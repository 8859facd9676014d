import EnergyChain.Dex.Calls
import EnergyChain.Foundations.Emitting

/-!
# The events of a pair

The functions of `UniswapV2ERC20` and `UniswapV2Pair` once more, now with the
events they emit. Without the events they are the functions of the pair; a call
that reverts leaves none. Events of the two tokens are other contracts'.
-/

namespace EnergyChain.Dex

inductive PairEvent where
  | approval (owner spender : Address) (value : ℕ)
  | transfer (src dst : Address) (value : ℕ)
  | mint (sender : Address) (amount0 amount1 : ℕ)
  | burn (sender : Address) (amount0 amount1 : ℕ) (dst : Address)
  | swap (sender : Address) (amount0In amount1In amount0Out amount1Out : ℕ) (dst : Address)
  | sync (reserve0 reserve1 : ℕ)
deriving DecidableEq

/-- A quantity of events, added up over a log. -/
def total (f : PairEvent → ℕ) (log : List PairEvent) : ℕ := (log.map f).sum

@[simp] theorem total_nil (f : PairEvent → ℕ) : total f [] = 0 := rfl

@[simp] theorem total_cons (f : PairEvent → ℕ) (e : PairEvent) (log : List PairEvent) :
    total f (e :: log) = f e + total f log := by
  simp [total]

theorem total_append (f : PairEvent → ℕ) (log log' : List PairEvent) :
    total f (log ++ log') = total f log + total f log' := by
  simp [total]

abbrev Logged (α : Type) := Emitting Revert PairEvent α

open Emitting (emit)

/-! ### The liquidity token -/

namespace ERC20

def mintLogged (t : ERC20) (dst : Address) (value : ℕ) : Logged ERC20 := do
  let t ← t.mint dst value
  emit (.transfer .zero dst value)
  return t

def burnLogged (t : ERC20) (src : Address) (value : ℕ) : Logged ERC20 := do
  let t ← t.burn src value
  emit (.transfer src .zero value)
  return t

def approveLogged (t : ERC20) (owner spender : Address) (value : ℕ) : Logged ERC20 := do
  emit (.approval owner spender value)
  return t.approve owner spender value

def transferLogged (t : ERC20) (src dst : Address) (value : ℕ) : Logged ERC20 := do
  let t ← t.transfer src dst value
  emit (.transfer src dst value)
  return t

/-- What is spent of an allowance is not announced. -/
def transferFromLogged (t : ERC20) (sender src dst : Address) (value : ℕ) : Logged ERC20 := do
  let t ← t.spendAllowance sender src value
  t.transferLogged src dst value

end ERC20

def TransferCall.applyLogged {pool : Pool} (t : ERC20) : TransferCall pool → Logged ERC20
  | .approve sender spender value => t.approveLogged sender.address spender value
  | .transfer sender dst value => t.transferLogged sender.address dst value
  | .transferFrom sender src dst value => t.transferFromLogged sender.address src dst value

def PairStorage.permitLogged (keccak256 : Bytes → Bytes)
    (ecrecover : Bytes → Signature → Address) (block : Block) (m : PermitMessage)
    (signature : Signature) (p : PairStorage) : Logged PairStorage := do
  let p ← p.permit keccak256 ecrecover block m signature
  emit (.approval m.owner m.spender m.value)
  return p

/-! ### Reserves, fee and liquidity -/

def updateLogged (block : Block) (balance0 balance1 reserve0 reserve1 : ℕ) (p : PairStorage) :
    Logged PairStorage := do
  let p ← update block balance0 balance1 reserve0 reserve1 p
  emit (.sync p.reserve0 p.reserve1)
  return p

def mintPositiveLogged (dst : Address) (liquidity : ℕ) (p : PairStorage) : Logged PairStorage :=
  if liquidity > 0 then do
    let t ← p.toERC20.mintLogged dst liquidity
    return p.withToken t
  else pure p

def mintGrowthFeeLogged (feeTo : Address) (reserve0 reserve1 : ℕ) (p : PairStorage) :
    Logged PairStorage := do
  let k ← checkedMul reserve0 reserve1
  let rootK ← sqrt k
  let rootKLast ← sqrt p.kLast
  if rootK > rootKLast then do
    let liquidity ← feeLiquidity p.totalSupply rootK rootKLast
    mintPositiveLogged feeTo liquidity p
  else pure p

def mintFeeLogged (factory : FeeSetting) (reserve0 reserve1 : ℕ) (p : PairStorage) :
    Logged (Bool × PairStorage) :=
  if factory.feeTo ≠ .zero then do
    let p ← if p.kLast ≠ 0 then mintGrowthFeeLogged factory.feeTo reserve0 reserve1 p else pure p
    return (true, p)
  else pure (false, if p.kLast ≠ 0 then { p with kLast := 0 } else p)

def mintLiquidityLogged (amount0 amount1 reserve0 reserve1 : ℕ) (p : PairStorage) :
    Logged (ℕ × PairStorage) :=
  if p.totalSupply = 0 then do
    let product ← checkedMul amount0 amount1
    let root ← sqrt product
    let liquidity ← checkedSub root minimumLiquidity
    let t ← p.toERC20.mintLogged .zero minimumLiquidity
    return (liquidity, p.withToken t)
  else do
    let product0 ← checkedMul amount0 p.totalSupply
    let liquidity0 ← checkedDiv product0 reserve0
    let product1 ← checkedMul amount1 p.totalSupply
    let liquidity1 ← checkedDiv product1 reserve1
    return (min liquidity0 liquidity1, p)

/-! ### The locked functions -/

def lockLogged {α : Type} (body : World → Logged (α × World)) (w : World) :
    Logged (α × World) := do
  require (w.pair.unlocked = 1) "UniswapV2: LOCKED"
  let (result, w) ← body (w.withPair { w.pair with unlocked := 0 })
  return (result, w.withPair { w.pair with unlocked := 1 })

namespace Pool

variable (pool : Pool)

def mintLogged (block : Block) (sender dst : Address) : World → Logged (ℕ × World) :=
  lockLogged fun w => do
  let reserve0 := w.pair.reserve0
  let reserve1 := w.pair.reserve1
  let balance0 := pool.balance0 w
  let balance1 := pool.balance1 w
  let amount0 ← checkedSub balance0 reserve0
  let amount1 ← checkedSub balance1 reserve1
  let (feeOn, p) ← mintFeeLogged w.factory reserve0 reserve1 w.pair
  let (liquidity, p) ← mintLiquidityLogged amount0 amount1 reserve0 reserve1 p
  require (liquidity > 0) "UniswapV2: INSUFFICIENT_LIQUIDITY_MINTED"
  let t ← p.toERC20.mintLogged dst liquidity
  let p ← updateLogged block balance0 balance1 reserve0 reserve1 (p.withToken t)
  let p ← recordK feeOn p
  emit (.mint sender amount0 amount1)
  return (liquidity, w.withPair p)

def burnLogged (block : Block) (sender dst : Address) : World → Logged ((ℕ × ℕ) × World) :=
  lockLogged fun w => do
  let reserve0 := w.pair.reserve0
  let reserve1 := w.pair.reserve1
  let liquidity := w.pair.balanceOf pool.pair
  let (feeOn, p) ← mintFeeLogged w.factory reserve0 reserve1 w.pair
  let product0 ← checkedMul liquidity (pool.balance0 w)
  let amount0 ← checkedDiv product0 p.totalSupply
  let product1 ← checkedMul liquidity (pool.balance1 w)
  let amount1 ← checkedDiv product1 p.totalSupply
  require (amount0 > 0 ∧ amount1 > 0) "UniswapV2: INSUFFICIENT_LIQUIDITY_BURNED"
  let t ← p.toERC20.burnLogged pool.pair liquidity
  let token0 ← safeTransfer w.token0 pool.pair dst amount0
  let token1 ← safeTransfer w.token1 pool.pair dst amount1
  let w := { w with token0, token1 }
  let p ← updateLogged block (pool.balance0 w) (pool.balance1 w) reserve0 reserve1 (p.withToken t)
  let p ← recordK feeOn p
  emit (.burn sender amount0 amount1 dst)
  return ((amount0, amount1), w.withPair p)

/-- The events of the callee's calls stand where it is called. -/
def callLogged (data : Bytes) (callee : World → Logged World) (w : World) : Logged World :=
  if data.length > 0 then callee w else pure w

def swapLogged (block : Block) (sender : Address) (amount0Out amount1Out : ℕ) (dst : Address)
    (data : Bytes) (callee : World → Logged World) : World → Logged (Unit × World) :=
  lockLogged fun w => do
  require (amount0Out > 0 ∨ amount1Out > 0) "UniswapV2: INSUFFICIENT_OUTPUT_AMOUNT"
  let reserve0 := w.pair.reserve0
  let reserve1 := w.pair.reserve1
  require (amount0Out < reserve0 ∧ amount1Out < reserve1) "UniswapV2: INSUFFICIENT_LIQUIDITY"
  require (dst ≠ pool.token0 ∧ dst ≠ pool.token1) "UniswapV2: INVALID_TO"
  let token0 ← pool.payOut w.token0 dst amount0Out
  let token1 ← pool.payOut w.token1 dst amount1Out
  let w ← callLogged data callee { w with token0, token1 }
  let balance0 := pool.balance0 w
  let balance1 := pool.balance1 w
  let amount0In ← amountIn balance0 reserve0 amount0Out
  let amount1In ← amountIn balance1 reserve1 amount1Out
  require (amount0In > 0 ∨ amount1In > 0) "UniswapV2: INSUFFICIENT_INPUT_AMOUNT"
  let balance0Adjusted ← balanceAdjusted balance0 amount0In
  let balance1Adjusted ← balanceAdjusted balance1 amount1In
  let adjusted ← checkedMul balance0Adjusted balance1Adjusted
  let product ← checkedMul reserve0 reserve1
  let required ← checkedMul product (1000 ^ 2)
  require (adjusted ≥ required) "UniswapV2: K"
  let p ← updateLogged block balance0 balance1 reserve0 reserve1 w.pair
  emit (.swap sender amount0In amount1In amount0Out amount1Out dst)
  return ((), w.withPair p)

def syncLogged (block : Block) : World → Logged (Unit × World) := lockLogged fun w => do
  let p ← updateLogged block (pool.balance0 w) (pool.balance1 w) w.pair.reserve0 w.pair.reserve1
    w.pair
  return ((), w.withPair p)

end Pool

/-! ### Calls -/

section Execution

variable {pool : Pool} (keccak256 : Bytes → Bytes) (ecrecover : Bytes → Signature → Address)
  (block : Block)

mutual

/-- `sender` calls `mint`, `burn` and `swap`; the other calls name their own. -/
def executeLogged (sender : Address) : Call pool → World → Logged World
  | .mint dst, w => do
    let (_, w) ← pool.mintLogged block sender dst w
    return w
  | .burn dst, w => do
    let (_, w) ← pool.burnLogged block sender dst w
    return w
  | .swap amount0Out amount1Out dst data callback, w => do
    let (_, w) ← pool.swapLogged block sender amount0Out amount1Out dst data
      (fun w => ⟨.ok (executeAllLogged dst callback w)⟩) w
    return w
  | .skim dst, w => do
    let (_, w) ← pool.skim dst w
    return w
  | .sync, w => do
    let (_, w) ← pool.syncLogged block w
    return w
  | .liquidity call, w => do
    let t ← call.applyLogged w.pair.toERC20
    return w.withPair (w.pair.withToken t)
  | .permit message signature, w => do
    let p ← w.pair.permitLogged keccak256 ecrecover block message signature
    return w.withPair p
  | .token0 call, w => do
    let token0 ← call.apply w.token0
    return { w with token0 }
  | .token1 call, w => do
    let token1 ← call.apply w.token1
    return { w with token1 }
  | .setFeeTo sender feeTo, w => do
    let factory ← w.factory.setFeeTo sender.address feeTo
    return { w with factory }
  | .setFeeToSetter sender feeToSetter, w => do
    let factory ← w.factory.setFeeToSetter sender.address feeToSetter
    return { w with factory }

/-- The calls of a callback, made by the callee; one that reverts leaves no events. -/
def executeAllLogged (sender : Address) : List (Call pool) → World → List PairEvent × World
  | [], w => ([], w)
  | c :: cs, w =>
    match (executeLogged sender c w).run with
    | .ok (log, w') =>
      let rest := executeAllLogged sender cs w'
      (log ++ rest.1, rest.2)
    | .error _ => executeAllLogged sender cs w

end

end Execution

/-! ### Without the events -/

open Emitting

section Plain

variable {p : PairStorage} {t : ERC20} {block : Block} {src dst sender : Address} {v : ℕ}

namespace ERC20

@[simp] theorem mintLogged_plain : (t.mintLogged dst v).plain = t.mint dst v := by
  simp [mintLogged]

@[simp] theorem burnLogged_plain : (t.burnLogged src v).plain = t.burn src v := by
  simp [burnLogged]

@[simp] theorem transferLogged_plain : (t.transferLogged src dst v).plain = t.transfer src dst v := by
  simp [transferLogged]

@[simp] theorem transferFromLogged_plain :
    (t.transferFromLogged sender src dst v).plain = t.transferFrom sender src dst v := by
  simp [transferFromLogged, transferFrom]

end ERC20

@[simp] theorem TransferCall.applyLogged_plain {pool : Pool} (call : TransferCall pool) :
    (call.applyLogged t).plain = call.apply t := by
  cases call with
  | approve sender spender value => rfl
  | transfer sender dst value => exact ERC20.transferLogged_plain
  | transferFrom sender src dst value => exact ERC20.transferFromLogged_plain

@[simp] theorem permitLogged_plain {keccak256 : Bytes → Bytes}
    {ecrecover : Bytes → Signature → Address} {m : PermitMessage} {signature : Signature} :
    (p.permitLogged keccak256 ecrecover block m signature).plain =
      p.permit keccak256 ecrecover block m signature := by
  simp [PairStorage.permitLogged]

variable {b₀ b₁ r₀ r₁ a₀ a₁ : ℕ}

@[simp] theorem updateLogged_plain :
    (updateLogged block b₀ b₁ r₀ r₁ p).plain = update block b₀ b₁ r₀ r₁ p := by
  simp [updateLogged]

@[simp] theorem mintPositiveLogged_plain :
    (mintPositiveLogged dst v p).plain = mintPositive dst v p := by
  unfold mintPositiveLogged mintPositive
  split_ifs
  · simp
  · rfl

@[simp] theorem mintGrowthFeeLogged_plain :
    (mintGrowthFeeLogged dst r₀ r₁ p).plain = mintGrowthFee dst r₀ r₁ p := by
  simp only [mintGrowthFeeLogged, mintGrowthFee, plain_bind, plain_monadLift]
  congr! with k rootK rootKLast
  split_ifs
  · simp
  · rfl

@[simp] theorem mintFeeLogged_plain {factory : FeeSetting} :
    (mintFeeLogged factory r₀ r₁ p).plain = mintFee factory r₀ r₁ p := by
  unfold mintFeeLogged mintFee
  split_ifs
  · simp
  · simp
  · rfl
  · rfl

@[simp] theorem mintLiquidityLogged_plain :
    (mintLiquidityLogged a₀ a₁ r₀ r₁ p).plain = mintLiquidity a₀ a₁ r₀ r₁ p := by
  unfold mintLiquidityLogged mintLiquidity
  split_ifs <;> simp

variable {pool : Pool}

theorem lockLogged_plain {α : Type} {body : World → Logged (α × World)}
    {plainBody : World → Except Revert (α × World)} (h : ∀ w, (body w).plain = plainBody w)
    (w : World) : (lockLogged body w).plain = lock plainBody w := by
  unfold lockLogged lock
  apply plain_bind_congr (plain_monadLift _)
  intro _
  apply plain_bind_congr (h _)
  rintro ⟨result, w₁⟩
  rfl

@[simp] theorem poolMintLogged_plain (w : World) :
    (pool.mintLogged block sender dst w).plain = pool.mint block dst w := by
  apply lockLogged_plain
  intro w
  simp

@[simp] theorem poolBurnLogged_plain (w : World) :
    (pool.burnLogged block sender dst w).plain = pool.burn block dst w := by
  apply lockLogged_plain
  intro w
  simp

theorem poolSwapLogged_plain {amount0Out amount1Out : ℕ} {data : Bytes}
    {callee : World → Logged World} {plainCallee : World → Except Revert World}
    (h : ∀ w, (callee w).plain = plainCallee w) (w : World) :
    (pool.swapLogged block sender amount0Out amount1Out dst data callee w).plain =
      pool.swap block amount0Out amount1Out dst data plainCallee w := by
  apply lockLogged_plain
  intro w
  have hcall : ∀ w, (Pool.callLogged data callee w).plain = Pool.call data plainCallee w := by
    intro w
    unfold Pool.callLogged Pool.call
    split_ifs
    · exact h w
    · rfl
  simp [hcall]

@[simp] theorem poolSyncLogged_plain (w : World) :
    (pool.syncLogged block w).plain = pool.sync block w := by
  apply lockLogged_plain
  intro w
  simp

section Execution

variable (keccak256 : Bytes → Bytes) (ecrecover : Bytes → Signature → Address)

mutual

theorem executeLogged_plain (block : Block) (sender : Address) : ∀ (c : Call pool) (w : World),
    (executeLogged keccak256 ecrecover block sender c w).plain =
      execute keccak256 ecrecover block c w
  | .mint dst, w => by simp [executeLogged, execute]
  | .burn dst, w => by simp [executeLogged, execute]
  | .swap amount0Out amount1Out dst data callback, w => by
    have hcallback := executeAllLogged_snd block dst callback
    have hcallee : ∀ w, Emitting.plain
        (⟨.ok (executeAllLogged keccak256 ecrecover block dst callback w)⟩ : Logged World) =
        .ok (executeAll keccak256 ecrecover block callback w) :=
      fun w => congrArg Except.ok (hcallback w)
    have hswap : (pool.swapLogged block sender amount0Out amount1Out dst data
        (fun w => ⟨.ok (executeAllLogged keccak256 ecrecover block dst callback w)⟩) w).plain =
        pool.swap block amount0Out amount1Out dst data
          (fun w => .ok (executeAll keccak256 ecrecover block callback w)) w :=
      poolSwapLogged_plain hcallee w
    simp [executeLogged, execute, hswap]
  | .skim dst, w => by simp [executeLogged, execute]
  | .sync, w => by simp [executeLogged, execute]
  | .liquidity call, w => by simp [executeLogged, execute]
  | .permit message signature, w => by simp [executeLogged, execute]
  | .token0 call, w => by simp [executeLogged, execute]
  | .token1 call, w => by simp [executeLogged, execute]
  | .setFeeTo sender feeTo, w => by simp [executeLogged, execute]
  | .setFeeToSetter sender feeToSetter, w => by simp [executeLogged, execute]

theorem executeAllLogged_snd (block : Block) (sender : Address) :
    ∀ (cs : List (Call pool)) (w : World),
      (executeAllLogged keccak256 ecrecover block sender cs w).2 =
        executeAll keccak256 ecrecover block cs w
  | [], w => by rw [executeAllLogged, executeAll]
  | c :: cs, w => by
    have hplain := executeLogged_plain block sender c w
    have hrest := executeAllLogged_snd block sender cs
    rw [executeAllLogged, executeAll, ← hplain, Emitting.plain]
    cases (executeLogged keccak256 ecrecover block sender c w).run with
    | error e => exact hrest w
    | ok r => exact hrest r.2

end

end Execution
end Plain

/-! ### Transactions -/

/-- `caller` calls `mint`, `burn` and `swap`; the other calls name their sender. -/
structure Transaction (pool : Pool) where
  caller : Address
  block : Block
  call : Call pool

def Transaction.message {pool : Pool} (tx : Transaction pool) : Block × Call pool :=
  (tx.block, tx.call)

section Transactions

variable {pool : Pool} (keccak256 : Bytes → Bytes) (ecrecover : Bytes → Signature → Address)

/-- What a transaction emits, and the state it leaves. -/
def transact (w : World) (tx : Transaction pool) : List PairEvent × World :=
  match (executeLogged keccak256 ecrecover tx.block tx.caller tx.call w).run with
  | .ok r => r
  | .error _ => ([], w)

def events : World → List (Transaction pool) → List PairEvent
  | _, [] => []
  | w, tx :: txs =>
    let r := transact keccak256 ecrecover w tx
    r.1 ++ events r.2 txs

theorem transact_snd (w : World) (tx : Transaction pool) :
    (transact keccak256 ecrecover w tx).2 = (deliver keccak256 ecrecover w tx.message).1 := by
  have hplain := executeLogged_plain keccak256 ecrecover tx.block tx.caller tx.call w
  unfold transact deliver Transaction.message
  rw [← hplain, Emitting.plain]
  cases (executeLogged keccak256 ecrecover tx.block tx.caller tx.call w).run <;> rfl

/-- A transaction is reverted, emits nothing and changes nothing, or its call goes through. -/
theorem transact_cases (w : World) (tx : Transaction pool) :
    transact keccak256 ecrecover w tx = ([], w) ∨
      (executeLogged keccak256 ecrecover tx.block tx.caller tx.call w).run =
        .ok (transact keccak256 ecrecover w tx) := by
  unfold transact
  cases (executeLogged keccak256 ecrecover tx.block tx.caller tx.call w).run with
  | error e => exact Or.inl rfl
  | ok r => exact Or.inr rfl

theorem events_append (w : World) (txs txs' : List (Transaction pool)) :
    events keccak256 ecrecover w (txs ++ txs') = events keccak256 ecrecover w txs ++
      events keccak256 ecrecover
        ((deliver keccak256 ecrecover).run w (txs.map Transaction.message)) txs' := by
  induction txs generalizing w with
  | nil => rfl
  | cons tx txs ih =>
    rw [List.cons_append, events, events, ih, List.map_cons, Handler.run_cons, transact_snd,
      List.append_assoc]

end Transactions
end EnergyChain.Dex
