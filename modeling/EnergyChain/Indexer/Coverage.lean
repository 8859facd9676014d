import EnergyChain.Indexer.Duplicates

/-!
# Events without rows

The first poll of a process starts at the head of the chain, wherever the stored
cursor is, and moves the stored cursor there. Runs whose first polls skip nothing
new have a row for every event up to the stored cursor; an event that a first
poll skips is never indexed.
-/

namespace EnergyChain.Indexer

variable {factory : Address} {chain : Chain factory} {contracts : Address → TokenContract}
  {Faulty : Prop} {A : Request → Memory → Backend → Prop} {startBlock : ℕ}

/-- The pairs created in the block are among the given ones, and the events in it of
pairs created since `startBlock` have rows. -/
def CompleteBlock (chain : Chain factory) (startBlock : ℕ) (pairs : List Address) (db : Database)
    (b : ℕ) : Prop :=
  (∀ pair, chain.CreatedIn pair b → pair ∈ pairs) ∧
    ∀ log ∈ chain.blockLogs b, log.event.kind ∈ EventKind.recorded →
      chain.Creates startBlock b log.address → log.ref ∈ db.recorded

theorem CompleteBlock.mono {pairs pairs' : List Address} {db db' : Database} {b : ℕ}
    (h : CompleteBlock chain startBlock pairs db b) (hpairs : pairs ⊆ pairs')
    (hrows : db.recorded ≤ db'.recorded) : CompleteBlock chain startBlock pairs' db' b :=
  ⟨fun pair hpair => hpairs (h.1 pair hpair),
    fun log hlog hkind hcreates => Multiset.mem_of_le hrows (h.2 log hlog hkind hcreates)⟩

/-- What the first poll of a process passes over is complete. -/
def SkipsNothing (chain : Chain factory) (startBlock : ℕ) (q : Request) (m : Memory)
    (s : Backend) : Prop :=
  match q with
  | .queryFilter _ .pairCreated lo _ =>
    m.lastProcessed = some 0 → ∀ b, startBlock ≤ b → fromBlock startBlock s.db.lastBlock ≤ b →
      b < lo → CompleteBlock chain startBlock m.trackedPairs s.db b
  | _ => True

/-- Every event up to the stored cursor, of a pair created up to it, has a row. -/
def AllIndexed (chain : Chain factory) (startBlock : ℕ) (db : Database) : Prop :=
  ∀ L, db.lastBlock = some L → ∀ log ∈ chain.logs startBlock L,
    log.event.kind ∈ EventKind.recorded → chain.Creates startBlock L log.address →
      log.ref ∈ db.recorded

/-- The blocks before `n` are complete. -/
def CompleteBefore (chain : Chain factory) (startBlock n : ℕ) (c : Memory × Backend) : Prop :=
  Coherent c ∧ ∀ b, startBlock ≤ b → b < n →
    CompleteBlock chain startBlock c.1.trackedPairs c.2.db b

/-- The same but for the blocks that a first poll passes over. -/
def CompleteButSkipped (chain : Chain factory) (startBlock n : ℕ) (c : Memory × Backend) : Prop :=
  Coherent c ∧ ∀ b, startBlock ≤ b → b < n →
    CompleteBlock chain startBlock c.1.trackedPairs c.2.db b ∨
      (c.1.lastProcessed = some 0 ∧ fromBlock startBlock c.2.db.lastBlock ≤ b)

/-- A returning pass completes its range when the blocks before are complete. -/
theorem complete_of_pass {lo hi : ℕ} {c c' : Memory × Backend} {pairs : List Address}
    (hbefore : ∀ b, startBlock ≤ b → b < lo →
      CompleteBlock chain startBlock c.1.trackedPairs c.2.db b)
    (hold : c.1.trackedPairs ⊆ pairs) (htracked : pairs ⊆ c'.1.trackedPairs)
    (hcreated : ∀ pair, chain.Creates lo hi pair → pair ∈ pairs)
    (hrows : c'.2.db.recorded = c.2.db.recorded + (pairs.map (pairRefs chain lo hi)).sum)
    {b : ℕ} (hb : startBlock ≤ b) (hhi : b ≤ hi) :
    CompleteBlock chain startBlock c'.1.trackedPairs c'.2.db b := by
  have hle : c.2.db.recorded ≤ c'.2.db.recorded := by
    rw [hrows]
    exact Multiset.le_add_right _ _
  by_cases hlo : b < lo
  · exact (hbefore b hb hlo).mono (fun _ hp => htracked (hold hp)) hle
  · refine ⟨fun pair hpair => htracked (hcreated pair ⟨b, by omega, hhi, hpair⟩), ?_⟩
    rintro log hlog hkind ⟨b', hstart, hle', hcreates⟩
    obtain rfl := (mem_blockLogs.mp hlog).1
    have hpair : log.address ∈ pairs := by
      by_cases hlo' : b' < lo
      · exact hold ((hbefore b' hstart hlo').1 _ hcreates)
      · exact hcreated _ ⟨b', by omega, by omega, hcreates⟩
    rw [hrows]
    refine Multiset.mem_add.mpr (.inr (mem_sum_map.mpr ⟨_, hpair, ?_⟩))
    exact mem_pairRefs.mpr ⟨by omega, hhi, log, hlog, rfl, rfl, hkind⟩

theorem CompleteBefore.framed {n : ℕ} {c c' : Memory × Backend}
    (h : CompleteBefore chain startBlock n c) (hframe : Frame c c') :
    CompleteBefore chain startBlock n c' :=
  ⟨hframe.coherent, fun b hb hn => (h.2 b hb hn).mono hframe.tracked hframe.rows⟩

/-- What is complete stays so while pairs and rows are only added. -/
theorem settled_of_frame {lp : Option ℕ} {c c' : Memory × Backend}
    (h : Settled startBlock (CompleteBefore chain startBlock) lp c) (hframe : Frame c c') :
    Settled startBlock (CompleteBefore chain startBlock) lp c' where
  memory := hframe.lastProcessed.trans h.memory
  stored := by
    rw [hframe.lastBlock]
    exact h.stored.framed hframe
  polled n hn hne := (h.polled n hn hne).framed hframe

theorem holds_completePass {lo hi n : ℕ} {lp : Option ℕ} (hhi : hi ≤ n) :
    Holds (servers chain contracts Faulty) (SkipsNothing chain startBlock)
      (fun c => Settled startBlock (CompleteBefore chain startBlock) lp c ∧
        CompleteButSkipped chain startBlock lo c ∧ n ≤ c.2.head)
      (processBlockRange factory lo hi)
      (fun _ c => Settled startBlock (CompleteBefore chain startBlock) lp c ∧
        CompleteBefore chain startBlock (hi + 1) c ∧ n ≤ c.2.head)
      (Settled startBlock (CompleteBefore chain startBlock) lp) := by
  intro c o c' hc hrun
  obtain ⟨hsettled, ⟨hcoherent, hbut⟩, hhead⟩ := hc
  obtain ⟨rfl, rfl⟩ | ⟨s₁, hd, hA⟩ := hrun.first_await
  · exact hsettled
  · have hbefore : ∀ b, startBlock ≤ b → b < lo →
        CompleteBlock chain startBlock c.1.trackedPairs c.2.db b := by
      intro b hb hblo
      obtain hcomplete | ⟨hfirst, hskip⟩ := hbut b hb hblo
      · exact hcomplete
      · rw [← hd.1] at hskip ⊢
        exact hA hfirst b hb hskip hblo
    have hpost := holds_processBlockRange (hhi.trans hhead) c o c' ⟨hcoherent.frame, rfl⟩ hrun
    cases o with
    | returned a =>
      obtain ⟨pairs, -, hold, htracked, hcreated, hframe, hrows⟩ := hpost
      refine ⟨settled_of_frame hsettled hframe, ⟨hframe.coherent, fun b hb hn => ?_⟩,
        hhead.trans hframe.head⟩
      exact complete_of_pass hbefore hold htracked hcreated hrows hb (by omega)
    | threw e =>
      obtain ⟨pairs, -, -, hframe, -⟩ := hpost
      exact settled_of_frame hsettled hframe
    | killed =>
      obtain ⟨pairs, -, -, hframe, -⟩ := hpost
      exact settled_of_frame hsettled hframe

theorem coverageRule : PassRule chain contracts Faulty (SkipsNothing chain startBlock) startBlock
    (CompleteButSkipped chain startBlock) (CompleteBefore chain startBlock)
    (fun s => ∀ b, startBlock ≤ b → b < fromBlock startBlock s.db.lastBlock →
      CompleteBlock chain startBlock s.db.pairAddresses s.db b) where
  pass := fun _ hhi => holds_completePass hhi
  assumed := fun h => ⟨h.1, fun b hb hn => .inl (h.2 b hb hn)⟩
  jump := by
    intro n c hsettled
    refine ⟨hsettled.stored.1, fun b hb _ => ?_⟩
    by_cases hfrom : b < fromBlock startBlock c.2.db.lastBlock
    · exact .inl (hsettled.stored.2 b hb hfrom)
    · exact .inr ⟨hsettled.memory, by omega⟩
  drift := fun h hd => ⟨h.1.drift hd, by rw [hd.1]; exact h.2⟩
  polled := fun h _ => h
  stored := fun h _ => h
  stop := fun h b hb hn => (h.stored.2 b hb hn).mono h.stored.1.2 le_rfl
  load := fun h => ⟨coherent_loaded _, fun b hb hn =>
    (h b hb hn).mono (fun _ hp => mem_loaded.mpr hp) le_rfl⟩
  grow := fun h hd => by rw [hd.1]; exact h
  initial := by
    intro head b hb hn
    simp only [Database.empty, fromBlock] at hn
    omega

theorem allIndexed_of_complete {db : Database}
    (h : ∀ b, startBlock ≤ b → b < fromBlock startBlock db.lastBlock →
      CompleteBlock chain startBlock db.pairAddresses db b) : AllIndexed chain startBlock db := by
  intro L hL log hlog hkind hcreates
  obtain ⟨b, hb, hbL, hmem⟩ := mem_logs.mp hlog
  obtain ⟨c, hc, -, hcreated⟩ := hcreates
  have hbefore : b < fromBlock startBlock db.lastBlock := by
    rw [hL]
    exact Nat.lt_succ_of_le hbL
  have hle : c ≤ b :=
    chain.created_le hcreated ⟨log.toLog, List.mem_of_getElem? (mem_blockLogs.mp hmem).2, rfl⟩
  exact (h b hb hbefore).2 log hmem hkind ⟨c, hc, hle, hcreated⟩

/-- The stored cursor is where it was, or at a block that alone may have got rows. -/
def OneBlock (chain : Chain factory) (db : Database) (c : Memory × Backend) : Prop :=
  c.2.db.lastBlock = db.lastBlock ∨ ∃ head, c.2.db.lastBlock = some head ∧
    c.2.db.recorded ≤ db.recorded + refs (chain.logs head head)

/-- The stored cursor is where it was, and no block but one got rows. -/
def OneBlockRows (chain : Chain factory) (db : Database) (n : ℕ) (c : Memory × Backend) : Prop :=
  c.2.db.lastBlock = db.lastBlock ∧ c.2.db.recorded ≤ db.recorded + refs (chain.logs n n)

theorem holds_pass_oneBlock {c₀ : Memory × Backend} {n : ℕ} :
    Holds (servers chain contracts Faulty) A
      (fun c => Mid c₀ c₀.2.db.recorded c ∧ n ≤ c.2.head) (processBlockRange factory n n)
      (fun _ => OneBlockRows chain c₀.2.db n) (OneBlock chain c₀.2.db) := by
  intro c o c' hc hrun
  obtain ⟨⟨hframe, hrows⟩, hhead⟩ := hc
  have hpost := holds_processBlockRange_bounded hhead c o c' ⟨hframe.coherent.frame, rfl⟩ hrun
  have hend : (∃ pairs : List Address, pairs.Nodup ∧ pairs ⊆ c'.1.trackedPairs ∧
      Bounded c (c.2.db.recorded + (pairs.map (pairRefs chain n n)).sum) c') →
      OneBlockRows chain c₀.2.db n c' := by
    rintro ⟨pairs, hnodup, -, hframe', hle⟩
    refine ⟨hframe'.lastBlock.trans hframe.lastBlock, hle.trans ?_⟩
    rw [hrows]
    exact add_le_add le_rfl (sum_pairRefs_le hnodup _ _)
  cases o with
  | returned a => exact hend hpost
  | threw e => exact .inl (hend hpost).1
  | killed => exact .inl (hend hpost).1

theorem holds_store_oneBlock {db : Database} {n : ℕ} :
    Holds (servers chain contracts Faulty) A (OneBlockRows chain db n) (indexerStateUpsert n)
      (fun _ => OneBlock chain db) (OneBlock chain db) := by
  have hdrift : ∀ {m : Memory} {s s₁ : Backend}, OneBlockRows chain db n (m, s) →
      (servers chain contracts Faulty).drift s s₁ → OneBlockRows chain db n (m, s₁) := by
    intro m s s₁ hc hd
    rw [OneBlockRows, hd.1]
    exact hc
  apply Holds.call
  · exact fun c hc => .inl hc.1
  · exact fun m s s₁ hc hd hA => .inr ⟨n, rfl, (hdrift hc hd).2⟩
  · exact fun hS m s s₁ hc hd hA =>
      ⟨.inl (hdrift hc hd).1, .inr ⟨n, rfl, (hdrift hc hd).2⟩⟩

theorem holds_first_poll {c₀ : Memory × Backend} (hcoherent : Coherent c₀)
    (hfirst : c₀.1.lastProcessed = some 0) :
    Holds (servers chain contracts Faulty) A (· = c₀) (poll factory)
      (fun _ => OneBlock chain c₀.2.db) (OneBlock chain c₀.2.db) := by
  have hmid : ∀ {rows c}, Mid c₀ rows c → OneBlock chain c₀.2.db c := fun h => .inl h.1.lastBlock
  unfold poll
  refine Holds.tryCatch (X := OneBlock chain c₀.2.db) ?_ (fun _ => Holds.pure fun _ hc => hc)
    fun _ hc => hc
  have hread : Holds (servers chain contracts Faulty) A (Mid c₀ c₀.2.db.recorded)
      getBlockNumber _ _ := holds_quiet rfl
  refine Holds.bind (hread.mono ?_ (fun _ _ hc => hc) fun _ hc => hmid hc) fun currentBlock => ?_
  · rintro _ rfl
    exact ⟨hcoherent.frame, rfl⟩
  · refine Holds.get.bind fun memory => ?_
    dsimp only
    by_cases hskip : currentBlock ≤ memory.lastProcessed.getD 0
    · rw [if_pos hskip]
      exact Holds.pure fun c hc => hmid hc.1.1
    · rw [if_neg hskip]
      refine Holds.bind (Q := fun _ => OneBlockRows chain c₀.2.db currentBlock) ?_ fun _ =>
        (Holds.modify fun c hc => hc).bind fun _ => holds_store_oneBlock
      -- the first poll of a process starts at the number that it read
      rintro c o c' ⟨⟨hc, s₁, -, hs₁, hhead⟩, rfl⟩ hrun
      obtain rfl : s₁.head = currentBlock := Except.ok.inj hhead
      obtain rfl : c.2 = s₁ := hs₁
      rw [hc.1.lastProcessed, hfirst] at hrun
      exact holds_pass_oneBlock c o c' ⟨hc, le_rfl⟩ hrun

/-- The first poll starts right behind the stored cursor, or before. -/
def NoGap (startBlock : ℕ) (q : Request) (m : Memory) (s : Backend) : Prop :=
  match q with
  | .queryFilter _ .pairCreated lo _ =>
    m.lastProcessed = some 0 → lo ≤ fromBlock startBlock s.db.lastBlock
  | _ => True

instance (q : Request) (m : Memory) (s : Backend) : Decidable (NoGap startBlock q m s) := by
  unfold NoGap
  cases q
  case queryFilter address kind lo hi => cases kind <;> infer_instance
  all_goals infer_instance

theorem skipsNothing_of_noGap {q : Request} {m : Memory} {s : Backend}
    (h : NoGap startBlock q m s) : SkipsNothing chain startBlock q m s := by
  unfold NoGap at h
  unfold SkipsNothing
  split
  · intro hfirst b _ hfrom hlo
    have := h hfirst
    omega
  · trivial

/-- Runs whose first polls skip nothing new have a row for every event up to the stored
cursor. When a first poll moves the cursor past an event without a row, it stays without. -/
theorem indexer_loses_nothing_when (chain : Chain factory) (contracts : Address → TokenContract)
    (Faulty : Prop) (startBlock : ℕ) :
    (∀ s, Reach startBlock chain contracts Faulty (SkipsNothing chain startBlock) s →
      AllIndexed chain startBlock s.backend.db) ∧
    ∀ s m, Reach startBlock chain contracts Faulty (fun _ _ _ => True) ⟨s, some m⟩ →
      m.lastProcessed = some 0 → ∀ o c L,
        Runs (servers chain contracts Faulty) (fun _ _ _ => True) (poll factory) (m, s) o c →
        c.2.db.lastBlock = some L → s.db.lastBlock ≠ some L →
        (∃ log ∈ chain.logs startBlock L, log.ref.blockNumber < L ∧
          log.event.kind ∈ EventKind.recorded ∧ chain.Creates startBlock L log.address ∧
          log.ref ∉ s.db.recorded) →
        ¬ AllIndexed chain startBlock c.2.db := by
  refine ⟨fun s h => allIndexed_of_complete (coverageRule.stored_of_reach h), ?_⟩
  rintro s m hreach hfirst o c L hrun hL hne ⟨log, hlog, hlt, hkind, hcreates, hnew⟩ hall
  have hrow := hall L hL log hlog hkind hcreates
  obtain ⟨n, hn⟩ := tracedRule.reach hreach
  have hone : OneBlock chain s.db c := by
    have hpost := holds_first_poll hn.stored.1 hfirst _ o c rfl hrun
    cases o with
    | returned a => exact hpost
    | threw e => exact hpost
    | killed => exact hpost
  obtain hsame | ⟨head, hhead, hrows⟩ := hone
  · exact hne (hsame ▸ hL)
  · obtain rfl : L = head := Option.some.inj (hL.symm.trans hhead)
    obtain hold | hadded := Multiset.mem_add.mp (Multiset.mem_of_le hrows hrow)
    · exact hnew hold
    · have hblock := blockNumber_of_mem_refs hadded
      omega

/-- The process starts when block 1 is there, and polls first when block 2 is. -/
theorem indexer_loses_nothing_growing :
    AllIndexed sampleChain 0 (sampleRun False 1 2).2.2.db := by
  have hstart : Reach 0 sampleChain sampleContracts False (SkipsNothing sampleChain 0)
      ⟨(sampleRun False 1 2).1.2, some (sampleRun False 1 2).1.1⟩ :=
    (Reach.initial 1).execStart 1 le_rfl (by decide +kernel)
      (Async.Admitted.mono (A := NoGap 0) (fun _ _ _ h => skipsNothing_of_noGap h)
        (by decide +kernel))
  have hpoll : Reach 0 sampleChain sampleContracts False (SkipsNothing sampleChain 0)
      ⟨(sampleRun False 1 2).2.2, some (sampleRun False 1 2).2.1⟩ :=
    hstart.execPoll 2 (by decide +kernel) (by decide +kernel)
      (Async.Admitted.mono (A := NoGap 0) (fun _ _ _ h => skipsNothing_of_noGap h)
        (by decide +kernel))
  exact (indexer_loses_nothing_when sampleChain sampleContracts False 0).1 _ hpoll

/-- Block 1 is mined after `start` has looked and before the first poll. -/
theorem indexer_loses_mint :
    ∃ s, Reach 0 sampleChain sampleContracts False (fun _ _ _ => True) s ∧
      ¬ AllIndexed sampleChain 0 s.backend.db := by
  have hstart : Reach 0 sampleChain sampleContracts False (fun _ _ _ => True)
      ⟨(sampleRun False 0 2).1.2, some (sampleRun False 0 2).1.1⟩ :=
    (Reach.initial 0).execStart 0 le_rfl (by decide +kernel) (by decide +kernel)
  have hpoll : Reach 0 sampleChain sampleContracts False (fun _ _ _ => True)
      ⟨(sampleRun False 0 2).2.2, some (sampleRun False 0 2).2.1⟩ :=
    hstart.execPoll 2 (by decide +kernel) (by decide +kernel) (by decide +kernel)
  refine ⟨_, hpoll, fun hall => ?_⟩
  have hmint := hall 2 (by decide +kernel)
    { address := samplePair, transactionHash := 2, event := .mint ⟨1⟩ 5000 5000, ref := ⟨1, 1⟩ }
    (by decide +kernel) (by decide +kernel) ⟨1, by decide, by decide, by decide +kernel⟩
  exact absurd hmint (by decide +kernel)

end EnergyChain.Indexer
