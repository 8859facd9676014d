import EnergyChain.Indexer.RowOrigins

/-!
# Rows for the same event

The tables have no key made from transaction and log, so a range of blocks that
is indexed again gets its rows again. Runs that never start a pass over blocks
with rows keep one row for each event; a pass that does so leaves two rows.
-/

namespace EnergyChain.Indexer

variable {factory : Address} {chain : Chain factory} {contracts : Address → TokenContract}
  {Faulty : Prop} {startBlock : ℕ}

/-- A pass begins by filtering for new pairs; no block of its range has rows then. -/
def FreshRange (q : Request) (_ : Memory) (s : Backend) : Prop :=
  match q with
  | .queryFilter _ .pairCreated lo hi =>
    ∀ r ∈ s.db.recorded, ¬ (lo ≤ r.blockNumber ∧ r.blockNumber ≤ hi)
  | _ => True

instance (q : Request) (m : Memory) (s : Backend) : Decidable (FreshRange q m s) := by
  unfold FreshRange
  split <;> infer_instance

theorem nodupRule : PassRule chain contracts Faulty FreshRange startBlock
    (fun _ c => Coherent c ∧ c.2.db.recorded.Nodup)
    (fun _ c => Coherent c ∧ c.2.db.recorded.Nodup)
    (fun s => s.db.recorded.Nodup) := by
  refine PassRule.ofInvariant (V := fun _ db => db.recorded.Nodup) ?_ (fun h _ => h)
    (fun h _ => h) Multiset.nodup_zero
  intro lo hi m m' s s' pairs hnodup _ hA hpairs _ hbounded
  obtain ⟨s₁, hd, hfresh⟩ := hA
  have hfresh : ∀ r ∈ s.db.recorded, ¬ (lo ≤ r.blockNumber ∧ r.blockNumber ≤ hi) := by
    rw [← hd.1]
    exact hfresh
  refine Multiset.nodup_of_le (hbounded.2.trans
    (add_le_add le_rfl (sum_pairRefs_le hpairs lo hi))) ?_
  refine Multiset.nodup_add.mpr ⟨hnodup, nodup_refs_logs lo hi, ?_⟩
  exact Multiset.disjoint_left.mpr fun hr hlog => hfresh _ hr (blockNumber_of_mem_refs hlog)

/-- A pass of a polling process that returns has given every event of its range that
had a row another one. -/
theorem not_nodup_of_pass {A : Request → Memory → Backend → Prop} {s : Backend} {m : Memory}
    (hreach : Reach startBlock chain contracts Faulty A ⟨s, some m⟩) {lo hi : ℕ}
    (hhi : hi ≤ s.head) {c : Memory × Backend}
    (hrun : Runs (servers chain contracts Faulty) A (processBlockRange factory lo hi) (m, s)
      (.returned ()) c)
    {r : LogRef} (hr : r ∈ s.db.recorded) (hlo : lo ≤ r.blockNumber) (hle : r.blockNumber ≤ hi) :
    ¬ c.2.db.recorded.Nodup := by
  obtain ⟨n, hn⟩ := tracedRule.reach hreach
  obtain ⟨hcoherent, htraced⟩ := hn.stored
  obtain ⟨pair, hpair, hemits⟩ := htraced r hr
  obtain ⟨pairs, -, hsub, -, -, hmid⟩ :=
    holds_processBlockRange hhi (m, s) _ c ⟨hcoherent.frame, rfl⟩ hrun
  have hagain : r ∈ (pairs.map (pairRefs chain lo hi)).sum :=
    mem_sum_map.mpr ⟨pair, hsub hpair, mem_pairRefs.mpr ⟨hlo, hle, hemits⟩⟩
  intro hnodup
  rw [hmid.2] at hnodup
  exact Multiset.disjoint_left.mp (Multiset.nodup_add.mp hnodup).2.2 hr hagain

/-- Runs that start no pass over blocks with rows have one row for each event at most,
and a pass over blocks with rows that returns leaves an event with two. -/
theorem indexer_counts_once_when (chain : Chain factory) (contracts : Address → TokenContract)
    (startBlock : ℕ) :
    (∀ s, Reach startBlock chain contracts True FreshRange s → s.backend.db.recorded.Nodup) ∧
    ∀ s m, Reach startBlock chain contracts True (fun _ _ _ => True) ⟨s, some m⟩ →
      ∀ lo hi c, hi ≤ s.head →
        Runs (servers chain contracts True) (fun _ _ _ => True) (processBlockRange factory lo hi)
          (m, s) (.returned ()) c →
        (∃ r ∈ s.db.recorded, lo ≤ r.blockNumber ∧ r.blockNumber ≤ hi) →
        ¬ c.2.db.recorded.Nodup := by
  refine ⟨fun s h => nodupRule.stored_of_reach h, fun s m h lo hi c hhi hrun hr => ?_⟩
  obtain ⟨r, hr, hlo, hle⟩ := hr
  exact not_nodup_of_pass h hhi hrun hr hlo hle

/-! ### A chain of three blocks -/

def sampleFactory : Address := ⟨100⟩

def samplePair : Address := ⟨200⟩

/-- The pair is created and receives liquidity in block 1, and block 2 has a swap. -/
def sampleBlock (b : ℕ) : Block where
  timestamp := 1700000000 + b
  logs :=
    if b = 1 then
      [{ address := sampleFactory, transactionHash := 1
         event := .pairCreated ⟨10⟩ ⟨11⟩ samplePair 1 },
        { address := samplePair, transactionHash := 2, event := .mint ⟨1⟩ 5000 5000 }]
    else if b = 2 then
      [{ address := samplePair, transactionHash := 3, event := .swap ⟨1⟩ 10 0 0 9 ⟨1⟩ }]
    else []

theorem sampleBlock_pos {b : ℕ} {log : Log} (h : log ∈ (sampleBlock b).logs) : 1 ≤ b := by
  by_contra hb
  obtain rfl : b = 0 := by omega
  exact absurd h List.not_mem_nil

def sampleChain : Chain sampleFactory where
  block := sampleBlock
  created_le := by
    rintro pair b c ⟨log, hlog, hcreates⟩ ⟨log', hlog', -⟩
    have hb := sampleBlock_pos hlog'
    simp only [sampleBlock] at hlog
    split_ifs at hlog with h1 h2
    · omega
    · obtain rfl := List.mem_singleton.mp hlog
      exact absurd hcreates.1 (by decide +kernel)
    · cases hlog

def sampleContracts (_ : Address) : TokenContract where
  name := some "Token"
  symbol := some "TKN"
  decimals := some 18

/-- The chain has one block when the process starts and grows before the first poll. -/
def sampleRun (Faulty : Prop) (head head' : ℕ) : (Memory × Backend) × (Memory × Backend) :=
  let started := ((start sampleFactory 0).exec (servers sampleChain sampleContracts Faulty)
    (.initial, ⟨.empty, head⟩)).2
  (started, ((poll sampleFactory).exec (servers sampleChain sampleContracts Faulty)
    (started.1, ⟨started.2.db, head'⟩)).2)

/-- The first poll sees block 1 again, which `start` has indexed. -/
theorem indexer_counts_twice :
    ∃ s, Reach 0 sampleChain sampleContracts True (fun _ _ _ => True) s ∧
      ¬ s.backend.db.recorded.Nodup := by
  have hstart : Reach 0 sampleChain sampleContracts True (fun _ _ _ => True)
      ⟨(sampleRun True 1 1).1.2, some (sampleRun True 1 1).1.1⟩ :=
    (Reach.initial 1).execStart 1 le_rfl (by decide +kernel) (by decide +kernel)
  have hpoll : Reach 0 sampleChain sampleContracts True (fun _ _ _ => True)
      ⟨(sampleRun True 1 1).2.2, some (sampleRun True 1 1).2.1⟩ :=
    hstart.execPoll 1 (by decide +kernel) (by decide +kernel) (by decide +kernel)
  exact ⟨_, hpoll, by decide +kernel⟩

/-- Two new blocks before the first poll, of which it indexes the second. -/
theorem indexer_counts_once_growing :
    (sampleRun True 1 2).2.2.db.recorded.Nodup := by
  have hstart : Reach 0 sampleChain sampleContracts True FreshRange
      ⟨(sampleRun True 1 2).1.2, some (sampleRun True 1 2).1.1⟩ :=
    (Reach.initial 1).execStart 1 le_rfl (by decide +kernel) (by decide +kernel)
  have hpoll : Reach 0 sampleChain sampleContracts True FreshRange
      ⟨(sampleRun True 1 2).2.2, some (sampleRun True 1 2).2.1⟩ :=
    hstart.execPoll 2 (by decide +kernel) (by decide +kernel) (by decide +kernel)
  exact (indexer_counts_once_when sampleChain sampleContracts 0).1 _ hpoll

end EnergyChain.Indexer
