import EnergyChain.Indexer.EventIndexer
import Mathlib.Logic.Relation

/-!
# Overlapping polls

The interval timer fires whether or not the callbacks before have finished. Here the
callbacks of one process are in progress side by side: each is at one of its awaits, and
any of them may go on. The loops of `processBlockRange` see what the other callbacks do to
the process meanwhile, the loop over `trackedPairs` also pairs that are added behind the
one it is at. No request fails.
-/

namespace EnergyChain.Indexer

/-- What the callbacks share, and the block ranges they have processed so far. -/
structure Shared where
  backend : Backend
  memory : Memory
  processed : List (ℕ × ℕ)
deriving DecidableEq

/-- `lastProcessed` of `pollNewBlocks`. -/
def Shared.lastProcessed (w : Shared) : ℕ := w.memory.lastProcessed.getD 0

/-- A callback in progress: the await that it is at, or that was answered last. -/
inductive Callback where
  | asking
  | asked (currentBlock : ℕ)
  | tracking (lo hi : ℕ) (logs : List EventLog)
  | creating (lo hi : ℕ) (pair : Pair) (logs : List EventLog)
  | created (lo hi : ℕ) (pairAddr : Address) (logs : List EventLog)
  | looping (lo hi i : ℕ)
  | indexing (lo hi i : ℕ) (pairAddr : Address)
  | storing (currentBlock : ℕ)
deriving DecidableEq

/-- The last `Sync` log of a pair in a range. -/
def Chain.lastSync {factory : Address} (chain : Chain factory) (pairAddr : Address)
    (lo hi : ℕ) : Option EventLog :=
  (chain.queryFilter pairAddr .sync lo hi).getLast?

section Steps

variable {factory : Address} (chain : Chain factory) (contracts : Address → TokenContract)

/-- A request that succeeds. -/
def request (q : Request) (w : Shared) : Option Shared :=
  match serve chain contracts q w.backend with
  | (.ok _, backend) => some { w with backend }
  | (.error _, _) => none

/-- How a callback goes on, up to the next await at most. A callback that has ended is no
longer there. The awaits of `ensureToken` belong to `creating`, those for the rows of a pair
to `indexing`. -/
def Callback.advance (w : Shared) : Callback → Option (Option Callback × Shared)
  | .asking => some (some (.asked w.backend.head), w)
  | .asked currentBlock =>
    if currentBlock ≤ w.lastProcessed then some (none, w)
    else
      let lo := if w.lastProcessed = 0 then currentBlock else w.lastProcessed + 1
      let logs := chain.queryFilter factory .pairCreated lo currentBlock
      some (some (.tracking lo currentBlock logs), w)
  | .tracking lo hi [] => some (some (.looping lo hi 0), w)
  | .tracking lo hi (log :: logs) =>
    match log.event with
    | .pairCreated token0 token1 pair _ =>
      if pair ∈ w.memory.trackedPairs then some (some (.tracking lo hi logs), w)
      else
        some (some (.creating lo hi { address := pair, token0Addr := token0, token1Addr := token1
                                      blockNumber := log.ref.blockNumber } logs), w)
    | _ => some (some (.tracking lo hi logs), w)
  | .creating lo hi pair logs =>
    (request chain contracts (.pairUpsert pair) w).map fun w' =>
      (some (.created lo hi pair.address logs), w')
  | .created lo hi pairAddr logs =>
    some (some (.tracking lo hi logs),
      { w with memory :=
        { w.memory with trackedPairs := addPair w.memory.trackedPairs pairAddr } })
  | .looping lo hi i =>
    match w.memory.trackedPairs[i]? with
    | some pairAddr => some (some (.indexing lo hi i pairAddr), w)
    | none =>
      some (some (.storing hi),
        { w with memory := { w.memory with lastProcessed := some hi }
                 processed := w.processed ++ [(lo, hi)] })
  | .indexing lo hi i pairAddr =>
    match (chain.lastSync pairAddr lo hi).map (·.event) with
    | some (Event.sync reserve0 reserve1) =>
      (request chain contracts (.pairUpdate pairAddr (toString reserve0) (toString reserve1)) w).map
        fun w' => (some (.looping lo hi (i + 1)), w')
    | _ => some (some (.looping lo hi (i + 1)), w)
  | .storing currentBlock =>
    (request chain contracts (.indexerStateUpsert currentBlock) w).map fun w' => (none, w')

/-- A process that polls, with its callbacks in progress. -/
structure Polling where
  shared : Shared
  running : List Callback
deriving DecidableEq

/-- The chain grows, the timer fires, other awaits store tokens and rows, or a callback
goes on, provided that `A` holds of it and of the others. -/
inductive Step (A : Shared → Callback → List Callback → Prop) : Polling → Polling → Prop where
  | grow {w running head} : w.backend.head ≤ head →
      Step A ⟨w, running⟩ ⟨{ w with backend := { w.backend with head } }, running⟩
  | fire {w running} : Step A ⟨w, running⟩ ⟨w, running ++ [.asking]⟩
  | quiet {w running} (db : Database) : db.pairs = w.backend.db.pairs →
      db.lastBlock = w.backend.db.lastBlock →
      Step A ⟨w, running⟩ ⟨{ w with backend := { w.backend with db } }, running⟩
  | move {w w' before after c c'} : A w c (before ++ after) →
      c.advance chain contracts w = some (c', w') →
      Step A ⟨w, before ++ c :: after⟩ ⟨w', before ++ c'.toList ++ after⟩

/-- The runs of such steps. -/
def Polls (A : Shared → Callback → List Callback → Prop) : Polling → Polling → Prop :=
  Relation.ReflTransGen (Step chain contracts A)

end Steps

end EnergyChain.Indexer
