import EnergyChain.Indexer.Types

/-!
# EventIndexer

The functions of `EventIndexer.ts`, await by await, and the runs of the
indexer: `start`, the callbacks of the interval timer one after another, and
the restarts of the process.
-/

namespace EnergyChain.Indexer

/-- The variables of the process. `lastProcessed` belongs to `pollNewBlocks` and
does not exist before it is called. -/
structure Memory where
  trackedPairs : List Address
  lastProcessed : Option ℕ
deriving DecidableEq

def Memory.initial : Memory where
  trackedPairs := []
  lastProcessed := none

/-- `Set.add`, with the elements in the order of their insertion. -/
def addPair (tracked : List Address) (pair : Address) : List Address :=
  if pair ∈ tracked then tracked else tracked ++ [pair]

abbrev Program := Async Request Response Memory Failure

open Async (call forEach)

section Awaits

abbrev getBlockNumber : Program ℕ := call Request.getBlockNumber

abbrev queryFilter (address : Address) (kind : EventKind) (lo hi : ℕ) : Program (List EventLog) :=
  call (Request.queryFilter address kind lo hi)

abbrev getBlock (number : ℕ) : Program (Option ℕ) := call (Request.getBlock number)

abbrev tokenName (address : Address) : Program String := call (Request.tokenName address)

abbrev tokenSymbol (address : Address) : Program String := call (Request.tokenSymbol address)

abbrev tokenDecimals (address : Address) : Program ℕ := call (Request.tokenDecimals address)

abbrev pairFindMany : Program (List Pair) := call Request.pairFindMany

abbrev indexerStateFindUnique : Program (Option ℕ) := call Request.indexerStateFindUnique

abbrev indexerStateUpsert (lastBlock : ℕ) : Program Unit :=
  call (Request.indexerStateUpsert lastBlock)

abbrev tokenFindUnique (address : Address) : Program (Option Token) :=
  call (Request.tokenFindUnique address)

abbrev tokenCreate (data : Token) : Program Unit := call (Request.tokenCreate data)

abbrev pairUpsert (data : Pair) : Program Unit := call (Request.pairUpsert data)

abbrev pairUpdate (address : Address) (reserve0 reserve1 : String) : Program Unit :=
  call (Request.pairUpdate address reserve0 reserve1)

abbrev create (row : Row) : Program Unit := call (Request.create row)

end Awaits

def ensureToken (address : Address) : Program Unit := do
  let existing ← tokenFindUnique address
  if existing.isSome then pure ()
  else
    try
      let name ← try tokenName address catch _ => pure "Unknown"
      let symbol ← try tokenSymbol address catch _ => pure "???"
      let decimals ← try tokenDecimals address catch _ => pure 18
      tokenCreate { address, name, symbol, decimals }
    catch _ => tokenCreate { address, name := "Unknown", symbol := "???", decimals := 18 }

def handlePairCreated (token0 token1 pairAddr : Address) (blockNumber : ℕ) : Program Unit := do
  let memory ← Async.get
  if pairAddr ∈ memory.trackedPairs then pure ()
  else
    ensureToken token0
    ensureToken token1
    pairUpsert { address := pairAddr, token0Addr := token0, token1Addr := token1, blockNumber }
    Async.modify fun m => { m with trackedPairs := addPair m.trackedPairs pairAddr }

/-- The row of a `Swap` log, given the time stamp of its block in milliseconds. -/
def swapRow (pairAddr : Address) (log : EventLog) : Option (ℕ → Row) :=
  match log.event with
  | .swap sender amount0In amount1In amount0Out amount1Out recipient => some fun timestamp =>
    .swap { log := log.ref, pairAddr, txHash := log.transactionHash, sender, recipient
            amount0In := toString amount0In, amount1In := toString amount1In
            amount0Out := toString amount0Out, amount1Out := toString amount1Out
            timestamp, blockNumber := log.ref.blockNumber }
  | _ => none

def mintRow (pairAddr : Address) (log : EventLog) : Option (ℕ → Row) :=
  match log.event with
  | .mint sender amount0 amount1 => some fun timestamp =>
    .mint { log := log.ref, pairAddr, txHash := log.transactionHash, sender
            amount0 := toString amount0, amount1 := toString amount1
            timestamp, blockNumber := log.ref.blockNumber }
  | _ => none

def burnRow (pairAddr : Address) (log : EventLog) : Option (ℕ → Row) :=
  match log.event with
  | .burn sender amount0 amount1 _ => some fun timestamp =>
    .burn { log := log.ref, pairAddr, txHash := log.transactionHash, sender
            amount0 := toString amount0, amount1 := toString amount1
            timestamp, blockNumber := log.ref.blockNumber }
  | _ => none

/-- The loop over the logs of one kind: a row for each that parses. -/
def createRows (row : EventLog → Option (ℕ → Row)) (logs : List EventLog) : Program Unit :=
  forEach logs fun log =>
    match row log with
    | none => pure ()
    | some parsed => do
      let timestamp ← getBlock log.ref.blockNumber
      create (parsed (timestamp.getD 0 * 1000))

/-- The four filters of `Promise.all` are awaited in turn. -/
def indexPairEvents (pairAddr : Address) (lo hi : ℕ) : Program Unit := do
  let swapLogs ← queryFilter pairAddr .swap lo hi
  let mintLogs ← queryFilter pairAddr .mint lo hi
  let burnLogs ← queryFilter pairAddr .burn lo hi
  let syncLogs ← queryFilter pairAddr .sync lo hi
  createRows (swapRow pairAddr) swapLogs
  createRows (mintRow pairAddr) mintLogs
  createRows (burnRow pairAddr) burnLogs
  match syncLogs.getLast?.map (·.event) with
  | some (Event.sync reserve0 reserve1) =>
    pairUpdate pairAddr (toString reserve0) (toString reserve1)
  | _ => pure ()

variable (factory : Address) (startBlock : ℕ)

/-- No pair is added while the loop over `trackedPairs` runs. -/
def processBlockRange (lo hi : ℕ) : Program Unit := do
  let pairCreatedLogs ← queryFilter factory .pairCreated lo hi
  forEach pairCreatedLogs fun log =>
    match log.event with
    | .pairCreated token0 token1 pair _ =>
      handlePairCreated token0 token1 pair log.ref.blockNumber
    | _ => pure ()
  let memory ← Async.get
  forEach memory.trackedPairs fun pairAddr => indexPairEvents pairAddr lo hi

def loadExistingPairs : Program Unit := do
  let pairs ← pairFindMany
  Async.modify fun m =>
    { m with trackedPairs := (pairs.map Pair.address).foldl addPair m.trackedPairs }

def batchSize : ℕ := 500

/-- The ranges of the loop in `syncHistorical`. -/
def batches (lo currentBlock : ℕ) : List (ℕ × ℕ) :=
  if lo ≤ currentBlock then
    (lo, min (lo + batchSize - 1) currentBlock) :: batches (lo + batchSize) currentBlock
  else []
termination_by currentBlock + 1 - lo
decreasing_by
  simp only [batchSize]
  omega

/-- The first block that is not synchronized yet, given the number under `lastBlock`. -/
def fromBlock (state : Option ℕ) : ℕ :=
  match state with
  | some lastBlock => lastBlock + 1
  | none => startBlock

def syncHistorical : Program Unit := do
  let state ← indexerStateFindUnique
  let currentBlock ← getBlockNumber
  if fromBlock startBlock state ≥ currentBlock then pure ()
  else
    forEach (batches (fromBlock startBlock state) currentBlock) fun (lo, hi) =>
      processBlockRange factory lo hi
    indexerStateUpsert currentBlock

def pollNewBlocks : Program Unit := Async.modify fun m => { m with lastProcessed := some 0 }

def start : Program Unit := do
  loadExistingPairs
  syncHistorical factory startBlock
  pollNewBlocks

/-- The callback of the interval timer. -/
def poll : Program Unit := do
  try
    let currentBlock ← getBlockNumber
    let memory ← Async.get
    let lastProcessed := memory.lastProcessed.getD 0
    if currentBlock ≤ lastProcessed then pure ()
    else
      let lo := if lastProcessed = 0 then currentBlock else lastProcessed + 1
      processBlockRange factory lo currentBlock
      Async.modify fun m => { m with lastProcessed := some currentBlock }
      indexerStateUpsert currentBlock
  catch _ => pure ()

/-! ### Runs -/

/-- The database and the chain, and the process when it polls. -/
structure System where
  backend : Backend
  process : Option Memory
deriving DecidableEq

/-- The process lives on after a run of one of its functions unless it was killed. -/
def survivor {ε α : Type} (o : Outcome ε α) (m : Memory) : Option Memory :=
  match o with
  | .killed => none
  | _ => some m

variable {factory}

/-- The states that runs of the indexer reach from an empty database, making only
awaits that satisfy `A`. A `start` that throws never polls. -/
inductive Reach (chain : Chain factory) (contracts : Address → TokenContract) (Faulty : Prop)
    (A : Request → Memory → Backend → Prop) : System → Prop where
  | initial (head : ℕ) : Reach chain contracts Faulty A ⟨⟨.empty, head⟩, none⟩
  | grown {db head head' p} : Reach chain contracts Faulty A ⟨⟨db, head⟩, p⟩ → head ≤ head' →
      Reach chain contracts Faulty A ⟨⟨db, head'⟩, p⟩
  | started {s m s'} : Reach chain contracts Faulty A ⟨s, none⟩ →
      Runs (servers chain contracts Faulty) A (start factory startBlock) (.initial, s)
        (.returned ()) (m, s') →
      Reach chain contracts Faulty A ⟨s', some m⟩
  | startFailed {s o c} : Reach chain contracts Faulty A ⟨s, none⟩ →
      Runs (servers chain contracts Faulty) A (start factory startBlock) (.initial, s) o c →
      Reach chain contracts Faulty A ⟨c.2, none⟩
  | polled {m s o m' s'} : Reach chain contracts Faulty A ⟨s, some m⟩ →
      Runs (servers chain contracts Faulty) A (poll factory) (m, s) o (m', s') →
      Reach chain contracts Faulty A ⟨s', survivor o m'⟩
  | stopped {s p} : Reach chain contracts Faulty A ⟨s, p⟩ → Reach chain contracts Faulty A ⟨s, none⟩

namespace Reach

variable {startBlock} {chain : Chain factory} {contracts : Address → TokenContract} {Faulty : Prop}
  {A : Request → Memory → Backend → Prop} {db : Database} {head : ℕ}

theorem mono {A' : Request → Memory → Backend → Prop} (hA : ∀ q m s, A q m s → A' q m s)
    {s : System} (h : Reach startBlock chain contracts Faulty A s) :
    Reach startBlock chain contracts Faulty A' s := by
  induction h with
  | initial head => exact .initial head
  | grown _ hle ih => exact ih.grown hle
  | started _ hrun ih => exact ih.started (hrun.mono hA)
  | startFailed _ hrun ih => exact ih.startFailed (hrun.mono hA)
  | polled _ hrun ih => exact ih.polled (hrun.mono hA)
  | stopped _ ih => exact ih.stopped

theorem execStart (h : Reach startBlock chain contracts Faulty A ⟨⟨db, head⟩, none⟩) (head' : ℕ)
    (hle : head ≤ head') {c : Memory × Backend}
    (hexec : (start factory startBlock).exec (servers chain contracts Faulty)
      (.initial, ⟨db, head'⟩) = (.returned (), c))
    (hadmitted : (start factory startBlock).Admitted (servers chain contracts Faulty) A
      (.initial, ⟨db, head'⟩)) :
    Reach startBlock chain contracts Faulty A ⟨c.2, some c.1⟩ := by
  have hrefl : ∀ s, (servers chain contracts Faulty).drift s s := fun s => ⟨rfl, le_rfl⟩
  have hrun := Runs.exec hrefl hadmitted
  rw [hexec] at hrun
  exact (h.grown hle).started hrun

theorem execPoll {m : Memory}
    (h : Reach startBlock chain contracts Faulty A ⟨⟨db, head⟩, some m⟩) (head' : ℕ)
    (hle : head ≤ head')
    {c : Memory × Backend}
    (hexec : (poll factory).exec (servers chain contracts Faulty) (m, ⟨db, head'⟩) =
      (.returned (), c))
    (hadmitted : (poll factory).Admitted (servers chain contracts Faulty) A
      (m, ⟨db, head'⟩)) :
    Reach startBlock chain contracts Faulty A ⟨c.2, some c.1⟩ := by
  have hrefl : ∀ s, (servers chain contracts Faulty).drift s s := fun s => ⟨rfl, le_rfl⟩
  have hrun := Runs.exec hrefl hadmitted
  rw [hexec] at hrun
  exact (h.grown hle).polled hrun

end Reach

end EnergyChain.Indexer
