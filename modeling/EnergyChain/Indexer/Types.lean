import EnergyChain.Evm.Checked
import EnergyChain.Foundations.AsyncPrograms

/-!
# What the indexer reads and writes

The chain as its node reports it, the tables of `schema.prisma` the event
indexer uses, and the two as servers of its awaits. Addresses stand for their
lower case hex text, the form in which the indexer keeps them.
-/

namespace EnergyChain.Indexer

/-! ### The chain -/

/-- The events of `FACTORY_ABI` and `PAIR_ABI` that are indexed, decoded. -/
inductive Event where
  | pairCreated (token0 token1 pair : Address) (allPairsLength : ℕ)
  | swap (sender : Address) (amount0In amount1In amount0Out amount1Out : ℕ) (recipient : Address)
  | mint (sender : Address) (amount0 amount1 : ℕ)
  | burn (sender : Address) (amount0 amount1 : ℕ) (recipient : Address)
  | sync (reserve0 reserve1 : ℕ)
  | other
deriving DecidableEq

/-- The topic a filter selects. -/
inductive EventKind where
  | pairCreated
  | swap
  | mint
  | burn
  | sync
  | other
deriving DecidableEq

def Event.kind : Event → EventKind
  | .pairCreated .. => .pairCreated
  | .swap .. => .swap
  | .mint .. => .mint
  | .burn .. => .burn
  | .sync .. => .sync
  | .other => .other

/-- The kinds that get a row of their own. -/
def EventKind.recorded : List EventKind := [.swap, .mint, .burn]

structure Log where
  address : Address
  transactionHash : Bytes32
  event : Event
deriving DecidableEq

structure Block where
  timestamp : ℕ
  logs : List Log

/-- The position of a log on the chain. -/
structure LogRef where
  blockNumber : ℕ
  index : ℕ
deriving DecidableEq

/-- A log as `queryFilter` returns it. -/
structure EventLog extends Log where
  ref : LogRef
deriving DecidableEq

/-- The log announces the pair, and it is the factory's. -/
def Log.Creates (factory pair : Address) (log : Log) : Prop :=
  log.address = factory ∧
    match log.event with
    | .pairCreated _ _ p _ => p = pair
    | _ => False

instance (factory pair : Address) (log : Log) : Decidable (log.Creates factory pair) := by
  unfold Log.Creates
  cases log.event <;> infer_instance

/-- The blocks of a chain without reorganizations, those still to come included.
A pair has no code before the block in which its factory creates it. -/
structure Chain (factory : Address) where
  block : ℕ → Block
  created_le : ∀ {pair b c}, (∃ log ∈ (block c).logs, log.Creates factory pair) →
    (∃ log ∈ (block b).logs, log.address = pair) → c ≤ b

namespace Chain

variable {factory : Address} (chain : Chain factory)

/-- The pair is created by the factory in the block. -/
def CreatedIn (pair : Address) (b : ℕ) : Prop :=
  ∃ log ∈ (chain.block b).logs, log.Creates factory pair

instance (pair : Address) (b : ℕ) : Decidable (chain.CreatedIn pair b) :=
  inferInstanceAs (Decidable (∃ log ∈ (chain.block b).logs, log.Creates factory pair))

def blockLogs (b : ℕ) : List EventLog :=
  (chain.block b).logs.zipIdx.map fun (log, i) => { log with ref := ⟨b, i⟩ }

/-- The logs of the blocks `lo` to `hi`, in the order of the chain. -/
def logs (lo hi : ℕ) : List EventLog := (List.range' lo (hi + 1 - lo)).flatMap chain.blockLogs

/-- `queryFilter` for the events of one kind that a contract emits. -/
def queryFilter (address : Address) (kind : EventKind) (lo hi : ℕ) : List EventLog :=
  (chain.logs lo hi).filter fun log => log.address = address ∧ log.event.kind = kind

end Chain

/-- What an ERC-20 contract answers to the calls of `ERC20_ABI`, if it does. -/
structure TokenContract where
  name : Option String
  symbol : Option String
  decimals : Option ℕ

/-! ### The tables -/

structure Token where
  address : Address
  name : String
  symbol : String
  decimals : ℕ
deriving DecidableEq

structure Pair where
  address : Address
  token0Addr : Address
  token1Addr : Address
  reserve0 : String := "0"
  reserve1 : String := "0"
  blockNumber : ℕ := 0
deriving DecidableEq

/-- A row of `Swap`. The log it was created from is not a column: rows only keep
the transaction, so that two logs of it may have equal rows. -/
structure Swap where
  log : LogRef
  pairAddr : Address
  txHash : Bytes32
  sender : Address
  recipient : Address
  amount0In : String
  amount1In : String
  amount0Out : String
  amount1Out : String
  timestamp : ℕ
  blockNumber : ℕ
deriving DecidableEq

/-- A row of `Mint` or of `Burn`, with the log it was created from. -/
structure Liquidity where
  log : LogRef
  pairAddr : Address
  txHash : Bytes32
  sender : Address
  amount0 : String
  amount1 : String
  timestamp : ℕ
  blockNumber : ℕ
deriving DecidableEq

/-- The number under the key `lastBlock` of `IndexerState` is kept as decimal text,
which `parseInt` reads back. -/
structure Database where
  tokens : List Token
  pairs : List Pair
  swaps : List Swap
  mints : List Liquidity
  burns : List Liquidity
  lastBlock : Option ℕ
deriving DecidableEq

namespace Database

def empty : Database where
  tokens := []
  pairs := []
  swaps := []
  mints := []
  burns := []
  lastBlock := none

variable (db : Database)

def pairAddresses : List Address := db.pairs.map Pair.address

/-- The logs that rows were created from, each as often as it has rows. -/
def recorded : Multiset LogRef :=
  ↑(db.swaps.map Swap.log) + ↑(db.mints.map Liquidity.log) + ↑(db.burns.map Liquidity.log)

end Database

/-- A row that `create` inserts. -/
inductive Row where
  | swap (row : Swap)
  | mint (row : Liquidity)
  | burn (row : Liquidity)

namespace Row

def pairAddr : Row → Address
  | .swap row => row.pairAddr
  | .mint row => row.pairAddr
  | .burn row => row.pairAddr

def log : Row → LogRef
  | .swap row => row.log
  | .mint row => row.log
  | .burn row => row.log

def insert (db : Database) : Row → Database
  | .swap row => { db with swaps := db.swaps ++ [row] }
  | .mint row => { db with mints := db.mints ++ [row] }
  | .burn row => { db with burns := db.burns ++ [row] }

@[simp] theorem insert_pairs (db : Database) (row : Row) : (row.insert db).pairs = db.pairs := by
  cases row <;> rfl

@[simp] theorem insert_lastBlock (db : Database) (row : Row) :
    (row.insert db).lastBlock = db.lastBlock := by
  cases row <;> rfl

@[simp] theorem recorded_insert (db : Database) (row : Row) :
    (row.insert db).recorded = db.recorded + {row.log} := by
  have happ : ∀ (rows : List LogRef) (r : LogRef), (↑(rows ++ [r]) : Multiset LogRef) = ↑rows + {r} :=
    fun rows r => by rw [← Multiset.coe_add, Multiset.coe_singleton]
  cases row with
  | swap row =>
    simp only [insert, Database.recorded, log, List.map_append, List.map_singleton, happ]
    abel
  | mint row =>
    simp only [insert, Database.recorded, log, List.map_append, List.map_singleton, happ]
    abel
  | burn row =>
    simp only [insert, Database.recorded, log, List.map_append, List.map_singleton, happ]
    abel

end Row

/-! ### The servers -/

/-- The reasons for which a request is rejected. -/
inductive Failure where
  | unavailable
  | callException
  | uniqueConstraint
  | foreignKeyConstraint
  | recordNotFound
deriving DecidableEq

/-- What the indexer awaits: the node first, then the database. -/
inductive Request where
  | getBlockNumber
  | queryFilter (address : Address) (kind : EventKind) (lo hi : ℕ)
  | getBlock (number : ℕ)
  | tokenName (address : Address)
  | tokenSymbol (address : Address)
  | tokenDecimals (address : Address)
  | pairFindMany
  | indexerStateFindUnique
  | indexerStateUpsert (lastBlock : ℕ)
  | tokenFindUnique (address : Address)
  | tokenCreate (data : Token)
  | pairUpsert (data : Pair)
  | pairUpdate (address : Address) (reserve0 reserve1 : String)
  | create (row : Row)

abbrev Response : Request → Type
  | .getBlockNumber => ℕ
  | .queryFilter .. => List EventLog
  | .getBlock _ => Option ℕ
  | .tokenName _ => String
  | .tokenSymbol _ => String
  | .tokenDecimals _ => ℕ
  | .pairFindMany => List Pair
  | .indexerStateFindUnique => Option ℕ
  | .indexerStateUpsert _ => Unit
  | .tokenFindUnique _ => Option Token
  | .tokenCreate _ => Unit
  | .pairUpsert _ => Unit
  | .pairUpdate .. => Unit
  | .create _ => Unit

/-- The database and the number of the latest block. -/
structure Backend where
  db : Database
  head : ℕ
deriving DecidableEq

section Serve

variable {factory : Address} (chain : Chain factory) (contracts : Address → TokenContract)

/-- The answer to a call of a contract that may lack the function. -/
def answer {α : Type} : Option α → Except Failure α
  | some a => .ok a
  | none => .error .callException

/-- Inserts a row whose key must be new and whose references must exist. -/
def guardInsert (s : Backend) (isNew hasReferences : Bool) (db : Database) :
    Except Failure Unit × Backend :=
  if !isNew then (.error .uniqueConstraint, s)
  else if !hasReferences then (.error .foreignKeyConstraint, s)
  else (.ok (), { s with db })

def serve : (q : Request) → Backend → Except Failure (Response q) × Backend
  | .getBlockNumber, s => (.ok s.head, s)
  | .queryFilter address kind lo hi, s =>
    (.ok (chain.queryFilter address kind lo (min hi s.head)), s)
  | .getBlock number, s =>
    (.ok (if number ≤ s.head then some (chain.block number).timestamp else none), s)
  | .tokenName address, s => (answer (contracts address).name, s)
  | .tokenSymbol address, s => (answer (contracts address).symbol, s)
  | .tokenDecimals address, s => (answer (contracts address).decimals, s)
  | .pairFindMany, s => (.ok s.db.pairs, s)
  | .indexerStateFindUnique, s => (.ok s.db.lastBlock, s)
  | .indexerStateUpsert lastBlock, s =>
    (.ok (), { s with db := { s.db with lastBlock := some lastBlock } })
  | .tokenFindUnique address, s => (.ok (s.db.tokens.find? (·.address = address)), s)
  | .tokenCreate data, s =>
    guardInsert s (!(s.db.tokens.map Token.address).contains data.address) true
      { s.db with tokens := s.db.tokens ++ [data] }
  | .pairUpsert data, s =>
    if data.address ∈ s.db.pairAddresses then (.ok (), s)
    else
      guardInsert s true ((s.db.tokens.map Token.address).contains data.token0Addr &&
        (s.db.tokens.map Token.address).contains data.token1Addr)
        { s.db with pairs := s.db.pairs ++ [data] }
  | .pairUpdate address reserve0 reserve1, s =>
    if address ∈ s.db.pairAddresses then
      (.ok (), { s with db := { s.db with pairs := s.db.pairs.map fun p =>
        if p.address = address then { p with reserve0, reserve1 } else p } })
    else (.error .recordNotFound, s)
  | .create row, s =>
    guardInsert s true (s.db.pairAddresses.contains row.pairAddr) (row.insert s.db)

/-- A faithful node, whose chain may grow between two awaits, and a faithful database. -/
def servers (Faulty : Prop) : Servers Request Response Backend Failure where
  serve := serve chain contracts
  drift s s' := s'.db = s.db ∧ s.head ≤ s'.head
  Faulty := Faulty

end Serve

end EnergyChain.Indexer
