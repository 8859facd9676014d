import EnergyChain.Dex.EventReplay
import EnergyChain.Dex.EventTrace
import EnergyChain.Indexer.OverlappingPolls

/-!
# From the pair to the database

The contract and the indexer, joined by the chain between them: the blocks hold
the events of the transactions on a pair, the indexer reads them, and the reserves
that it stores as text are those of the contract.
-/

namespace EnergyChain.Indexer

open Dex (PairEvent Transaction World deliver events)

/-- The event of a pair as the indexer decodes it. -/
def indexed : PairEvent → Event
  | .swap sender amount0In amount1In amount0Out amount1Out dst =>
    .swap sender amount0In amount1In amount0Out amount1Out dst
  | .mint sender amount0 amount1 => .mint sender amount0 amount1
  | .burn sender amount0 amount1 dst => .burn sender amount0 amount1 dst
  | .sync reserve0 reserve1 => .sync reserve0 reserve1
  | .approval .. | .transfer .. => .other

/-! ### Blocks of transactions -/

section Blocks

variable {pool : Dex.Pool} {txs : List (Transaction pool)}

def inBlock (txs : List (Transaction pool)) (b : ℕ) : List (Transaction pool) :=
  txs.filter fun tx => tx.block.number = b

def upToBlock (txs : List (Transaction pool)) (b : ℕ) : List (Transaction pool) :=
  txs.filter fun tx => tx.block.number ≤ b

/-- The blocks come one after another. -/
def Ordered (txs : List (Transaction pool)) : Prop :=
  txs.Pairwise fun tx tx' => tx.block.number ≤ tx'.block.number

theorem upToBlock_zero : upToBlock txs 0 = inBlock txs 0 := by
  simp [upToBlock, inBlock]

theorem upToBlock_succ (h : Ordered txs) (b : ℕ) :
    upToBlock txs (b + 1) = upToBlock txs b ++ inBlock txs (b + 1) := by
  induction txs with
  | nil => rfl
  | cons tx txs ih =>
    obtain ⟨hfirst, hrest⟩ := List.pairwise_cons.mp h
    have ih := ih hrest
    unfold upToBlock inBlock at ih ⊢
    rcases Nat.lt_trichotomy tx.block.number (b + 1) with hlt | heq | hgt
    · have hle : tx.block.number ≤ b := by omega
      have hne : tx.block.number ≠ b + 1 := by omega
      have hle' : tx.block.number ≤ b + 1 := by omega
      simp [hle, hne, hle', ih]
    · -- None of the later transactions is in an earlier block.
      have hnone : txs.filter (fun tx => tx.block.number ≤ b) = [] := by
        apply List.filter_eq_nil_iff.mpr
        intro tx' htx' hle
        have hnext := hfirst tx' htx'
        have hle := of_decide_eq_true hle
        omega
      have hnle : ¬ tx.block.number ≤ b := by omega
      rw [hnone, List.nil_append] at ih
      simp [heq, hnone, ih]
    · have hnle : ¬ tx.block.number ≤ b := by omega
      have hne : tx.block.number ≠ b + 1 := by omega
      have hnle' : ¬ tx.block.number ≤ b + 1 := by omega
      simp [hnle, hne, hnle', ih]

end Blocks

/-! ### The chain between contract and indexer -/

section Chain

variable {factory : Address} {chain : Chain factory} {pool : Dex.Pool}
  {keccak256 : Bytes → Bytes} {ecrecover : Bytes → Dex.Signature → Address} {w : World}
  {txs : List (Transaction pool)}

/-- The chain has the events that the transactions emit, block by block. -/
structure Reports (chain : Chain factory) (keccak256 : Bytes → Bytes)
    (ecrecover : Bytes → Dex.Signature → Address) (w : World) (txs : List (Transaction pool)) :
    Prop where
  ordered : Ordered txs
  genesis : ((chain.block 0).logs.filter (·.address = pool.pair)).map Log.event =
    (events keccak256 ecrecover w (inBlock txs 0)).map indexed
  block : ∀ b, ((chain.block (b + 1)).logs.filter (·.address = pool.pair)).map Log.event =
    (events keccak256 ecrecover
      ((deliver keccak256 ecrecover).run w ((upToBlock txs b).map Transaction.message))
      (inBlock txs (b + 1))).map indexed

theorem map_event_blockLogs (address : Address) (b : ℕ) :
    ((chain.blockLogs b).filter (·.address = address)).map (·.event) =
      ((chain.block b).logs.filter (·.address = address)).map Log.event := by
  rw [Chain.blockLogs, List.filter_map, List.map_map]
  have hzip : ∀ (logs : List Log) (k : ℕ),
      ((logs.zipIdx k).filter fun p => decide (p.1.address = address)).map (fun p => p.1.event) =
        (logs.filter (·.address = address)).map Log.event := by
    intro logs
    induction logs with
    | nil => exact fun _ => rfl
    | cons log logs ih =>
      intro k
      by_cases hlog : log.address = address <;> simp [hlog, ih]
  exact hzip _ 0

theorem logs_succ (b : ℕ) : chain.logs 0 (b + 1) = chain.logs 0 b ++ chain.blockLogs (b + 1) := by
  have hrange : List.range' 0 (b + 1 + 1 - 0) = List.range' 0 (b + 1 - 0) ++ [b + 1] := by
    simp [List.range'_concat]
  rw [Chain.logs, hrange, List.flatMap_append, List.flatMap_singleton, Chain.logs]

theorem Reports.events_eq (h : Reports chain keccak256 ecrecover w txs) (b : ℕ) :
    ((chain.logs 0 b).filter (·.address = pool.pair)).map (·.event) =
      (events keccak256 ecrecover w (upToBlock txs b)).map indexed := by
  induction b with
  | zero =>
    have hlogs : chain.logs 0 0 = chain.blockLogs 0 := by simp [Chain.logs]
    rw [hlogs, map_event_blockLogs, h.genesis, upToBlock_zero]
  | succ b ih =>
    rw [logs_succ, List.filter_append, List.map_append, ih, map_event_blockLogs, h.block,
      upToBlock_succ h.ordered, Dex.events_append, List.map_append]

theorem filter_sync_indexed (log : List PairEvent) :
    (log.map indexed).filter (·.kind = .sync) =
      (log.filterMap PairEvent.announced).map fun r => .sync r.1 r.2 := by
  induction log with
  | nil => rfl
  | cons e log ih =>
    cases e with
    | sync reserve0 reserve1 =>
      rw [List.map_cons, List.filter_cons_of_pos (by simp [indexed, Event.kind]), ih]
      rfl
    | _ =>
      rw [List.map_cons, List.filter_cons_of_neg (by simp [indexed, Event.kind]), ih]
      rfl

/-- The latest `Sync` log up to a block has the reserves of the pair after it. -/
theorem Reports.lastSync_reserves (h : Reports chain keccak256 ecrecover w txs)
    (hw : Dex.Settled pool w) {b : ℕ} {log : EventLog}
    (hlog : chain.lastSync pool.pair 0 b = some log) :
    log.event = .sync
      ((deliver keccak256 ecrecover).run w ((upToBlock txs b).map Transaction.message)).pair.reserve0
      ((deliver keccak256 ecrecover).run w
        ((upToBlock txs b).map Transaction.message)).pair.reserve1 := by
  have hquery : (chain.queryFilter pool.pair .sync 0 b).map (·.event) =
      (((chain.logs 0 b).filter (·.address = pool.pair)).map (·.event)).filter (·.kind = .sync) := by
    rw [List.filter_map, List.filter_filter, Chain.queryFilter]
    congr 2
    funext log
    rw [Bool.decide_and]
    exact Bool.and_comm _ _
  rw [h.events_eq, filter_sync_indexed] at hquery
  have hlast := congrArg List.getLast? hquery
  rw [List.getLast?_map, List.getLast?_map, show (chain.queryFilter pool.pair .sync 0 b).getLast? =
    some log from hlog] at hlast
  have htrace := (@Dex.events_trace pool keccak256 ecrecover w hw (upToBlock txs b)).announced_last
  obtain ⟨r, hr, hevent⟩ := Option.map_eq_some_iff.mp hlast.symm
  rw [hr, Option.getD_some] at htrace
  have hevent : log.event = .sync r.1 r.2 := hevent.symm
  rw [hevent, ← htrace]
  rfl

end Chain

/-! ### The stored reserves -/

section Stored

variable {factory : Address} {startBlock : ℕ} {chain : Chain factory}
  {contracts : Address → TokenContract} {Faulty : Prop} {A : Request → Memory → Backend → Prop}

end Stored

/-! ### A pair in two blocks -/

def tradedLog (event : Event) : Log where
  address := Dex.samplePool.pair
  transactionHash := 1
  event := event

/-- The pair is created and minted in block 1, and block 2 has a flash swap. -/
def tradedBlock (b : ℕ) : Block where
  timestamp := 1700000000 + b
  logs :=
    if b = 1 then
      { address := sampleFactory, transactionHash := 1
        event := .pairCreated ⟨2⟩ ⟨3⟩ Dex.samplePool.pair 1 } ::
      [.other, .other, .sync 10000 10000, .mint ⟨4⟩ 10000 10000].map tradedLog
    else if b = 2 then [.sync 11000 9100, .swap ⟨4⟩ 1000 0 0 900 ⟨5⟩].map tradedLog
    else []

theorem tradedBlock_creates {b : ℕ} {log : Log} {pair : Address}
    (hlog : log ∈ (tradedBlock b).logs) (hcreates : log.Creates sampleFactory pair) : b = 1 := by
  by_contra hb
  simp only [tradedBlock, if_neg hb] at hlog
  split_ifs at hlog with h2
  · obtain ⟨event, -, rfl⟩ := List.mem_map.mp hlog
    have hpair : Dex.samplePool.pair ≠ sampleFactory := by decide +kernel
    exact absurd hcreates.1 hpair
  · cases hlog

theorem tradedBlock_pos {b : ℕ} {log : Log} (hlog : log ∈ (tradedBlock b).logs) : 1 ≤ b := by
  by_contra hb
  obtain rfl : b = 0 := by omega
  exact absurd hlog List.not_mem_nil

def tradedChain : Chain sampleFactory where
  block := tradedBlock
  created_le := fun ⟨_, hlog, hcreates⟩ ⟨_, hlog', _⟩ =>
    (tradedBlock_creates hlog hcreates).le.trans (tradedBlock_pos hlog')

theorem tradedChain_reports : Reports tradedChain Dex.sampleKeccak256 Dex.sampleEcrecover
    (.deployed Dex.sampleKeccak256 262144 Dex.sampleToken Dex.sampleToken ⟨.zero, ⟨9⟩⟩)
    Dex.sampleTransactions where
  ordered := by
    simp [Ordered, Dex.sampleTransactions, Dex.sampleMint]
  genesis := by decide +kernel
  block b := by
    match b with
    | 0 => decide +kernel
    | 1 => decide +kernel
    | b + 2 =>
      have hnone : inBlock Dex.sampleTransactions (b + 2 + 1) = [] := by
        simp [inBlock, Dex.sampleTransactions, Dex.sampleMint]
      rw [hnone]
      rfl

/-- The process starts with block 1 and polls once when block 2 is there. -/
def tradedStart : Memory × Backend :=
  ((start sampleFactory 0).exec (servers tradedChain sampleContracts False)
    (.initial, ⟨.empty, 1⟩)).2

def tradedPolling : Polling := ⟨⟨tradedStart.2, tradedStart.1, []⟩, []⟩

def tradedPolled : Polling :=
  (tradedPolling.play tradedChain sampleContracts (InTurn tradedChain)
    ([.grow 2, .fire] ++ List.replicate 7 (.move 0))).getD tradedPolling

end EnergyChain.Indexer
