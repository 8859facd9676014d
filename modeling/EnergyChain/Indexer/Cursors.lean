import EnergyChain.Indexer.Passes

/-!
# The two cursors

`syncHistorical` goes by the block number in the database and `pollNewBlocks` by
a variable of its own, which starts at zero. What holds of the blocks before a
cursor is carried through whole runs by one rule, given what a pass does.
-/

namespace EnergyChain.Indexer

variable {factory : Address} {chain : Chain factory} {contracts : Address → TokenContract}
  {Faulty : Prop} {A : Request → Memory → Backend → Prop} {startBlock : ℕ}

/-- `L` holds up to both cursors, the stored one and the one in memory. -/
structure Settled (startBlock : ℕ) (L : ℕ → Memory × Backend → Prop)
    (lastProcessed : Option ℕ) (c : Memory × Backend) : Prop where
  memory : c.1.lastProcessed = lastProcessed
  stored : L (fromBlock startBlock c.2.db.lastBlock) c
  polled : ∀ n, lastProcessed = some n → n ≠ 0 → L (n + 1) c

/-- The memory after `loadExistingPairs`. -/
def loaded (s : Backend) : Memory where
  trackedPairs := s.db.pairAddresses.foldl addPair []
  lastProcessed := none

theorem mem_foldl_addPair {ps tracked : List Address} {p : Address} :
    p ∈ ps.foldl addPair tracked ↔ p ∈ tracked ∨ p ∈ ps := by
  induction ps generalizing tracked with
  | nil => simp
  | cons q ps ih => rw [List.foldl_cons, ih, mem_addPair, List.mem_cons, or_assoc]

theorem nodup_foldl_addPair {tracked : List Address} (h : tracked.Nodup) (ps : List Address) :
    (ps.foldl addPair tracked).Nodup := by
  induction ps generalizing tracked with
  | nil => exact h
  | cons q ps ih => exact ih (nodup_addPair h q)

/-- What the rule asks for. Of a running process `L n` says what holds of the blocks
before `n`, of a stopped one `I` what the database keeps. A pass may assume `K`, which
the first poll has without its blocks following those before. -/
structure PassRule (chain : Chain factory) (contracts : Address → TokenContract) (Faulty : Prop)
    (A : Request → Memory → Backend → Prop) (startBlock : ℕ) (K L : ℕ → Memory × Backend → Prop)
    (I : Backend → Prop) : Prop where
  pass : ∀ {lo hi n : ℕ} {lp : Option ℕ}, lo ≤ hi → hi ≤ n →
    Holds (servers chain contracts Faulty) A
      (fun c => Settled startBlock L lp c ∧ K lo c ∧ n ≤ c.2.head) (processBlockRange factory lo hi)
      (fun _ c => Settled startBlock L lp c ∧ L (hi + 1) c ∧ n ≤ c.2.head)
      (Settled startBlock L lp)
  assumed : ∀ {n c}, L n c → K n c
  jump : ∀ {n c}, Settled startBlock L (some 0) c → K n c
  drift : ∀ {n m s s'}, L n (m, s) → (servers chain contracts Faulty).drift s s' → L n (m, s')
  polled : ∀ {n m s}, L n (m, s) → ∀ lp, L n ({ m with lastProcessed := lp }, s)
  stored : ∀ {n m db head}, L n (m, ⟨db, head⟩) →
    ∀ lastBlock, L n (m, ⟨{ db with lastBlock }, head⟩)
  stop : ∀ {lp c}, Settled startBlock L lp c → I c.2
  load : ∀ {s}, I s → L (fromBlock startBlock s.db.lastBlock) (loaded s, s)
  grow : ∀ {s s'}, I s → (servers chain contracts Faulty).drift s s' → I s'
  initial : ∀ head, I ⟨.empty, head⟩

namespace PassRule

variable {K L : ℕ → Memory × Backend → Prop} {I : Backend → Prop} {lp : Option ℕ}
  (rule : PassRule chain contracts Faulty A startBlock K L I)
include rule

theorem settled_drift {m : Memory} {s s' : Backend} (h : Settled startBlock L lp (m, s))
    (hd : (servers chain contracts Faulty).drift s s') : Settled startBlock L lp (m, s') where
  memory := h.memory
  stored := by
    rw [hd.1]
    exact rule.drift h.stored hd
  polled := fun n hn hne => rule.drift (h.polled n hn hne) hd

theorem holds_read {q : Request} {P : Memory × Backend → Prop}
    (hread : ∀ s, (serve chain contracts q s).2 = s)
    (hP : ∀ m s s', P (m, s) → (servers chain contracts Faulty).drift s s' → P (m, s')) :
    Holds (servers chain contracts Faulty) A (fun c => Settled startBlock L lp c ∧ P c)
      (Async.call q)
      (fun b c => (Settled startBlock L lp c ∧ P c) ∧ (serve chain contracts q c.2).1 = .ok b)
      (Settled startBlock L lp) := by
  apply Holds.call
  · exact fun c hc => hc.1
  · intro m s s₁ hc hd hA
    have hstate : (serve chain contracts q s₁).2 = s₁ := hread s₁
    have hpost := And.intro (rule.settled_drift hc.1 hd) (hP m s s₁ hc.2 hd)
    simp only [servers, hstate]
    cases hres : (serve chain contracts q s₁).1 with
    | ok b => exact ⟨hpost, rfl⟩
    | error e => exact hpost.1
  · intro hS m s s₁ hc hd hA
    have hstate : (serve chain contracts q s₁).2 = s₁ := hread s₁
    simp only [servers, hstate]
    exact ⟨rule.settled_drift hc.1 hd, rule.settled_drift hc.1 hd⟩

theorem holds_indexerStateUpsert {n : ℕ} :
    Holds (servers chain contracts Faulty) A (fun c => Settled startBlock L lp c ∧ L (n + 1) c)
      (indexerStateUpsert n) (fun _ => Settled startBlock L lp) (Settled startBlock L lp) := by
  have hupsert : ∀ {m s s'}, Settled startBlock L lp (m, s) ∧ L (n + 1) (m, s) →
      (servers chain contracts Faulty).drift s s' →
      Settled startBlock L lp (m, (serve chain contracts (.indexerStateUpsert n) s').2) := by
    intro m s s' hc hd
    have hsettled := rule.settled_drift hc.1 hd
    exact ⟨hsettled.memory, rule.stored (rule.drift hc.2 hd) _,
      fun n hn hne => rule.stored (hsettled.polled n hn hne) _⟩
  apply Holds.call
  · exact fun c hc => hc.1
  · exact fun m s s₁ hc hd hA => hupsert hc hd
  · exact fun hS m s s₁ hc hd hA => ⟨rule.settled_drift hc.1 hd, hupsert hc hd⟩

theorem holds_batches {lo currentBlock : ℕ} :
    Holds (servers chain contracts Faulty) A
      (fun c => Settled startBlock L lp c ∧ L lo c ∧ lo ≤ currentBlock ∧ currentBlock ≤ c.2.head)
      (Async.forEach (batches lo currentBlock) fun (lo, hi) => processBlockRange factory lo hi)
      (fun _ c => Settled startBlock L lp c ∧ L (currentBlock + 1) c) (Settled startBlock L lp) := by
  -- the remaining ranges start at a block before which everything is settled
  let J : List (ℕ × ℕ) → Memory × Backend → Prop := fun rest c =>
    Settled startBlock L lp c ∧ currentBlock ≤ c.2.head ∧
      ∃ lo, rest = batches lo currentBlock ∧ L (min lo (currentBlock + 1)) c
  have hloop : Holds (servers chain contracts Faulty) A (J (batches lo currentBlock))
      (Async.forEach (batches lo currentBlock) fun (lo, hi) => processBlockRange factory lo hi)
      (fun _ => J []) (Settled startBlock L lp) := by
    apply Holds.forEach
    rintro ⟨lo, hi⟩ rest c o c' ⟨hsettled, hhead, lo', hrest, hL⟩ hrun
    rw [batches] at hrest
    split_ifs at hrest with hle
    obtain ⟨hrange, rfl⟩ := List.cons.inj hrest
    obtain ⟨rfl, rfl⟩ := Prod.mk.inj hrange
    have hlo : min lo (currentBlock + 1) = lo := by omega
    rw [hlo] at hL
    have hrange : lo ≤ min (lo + batchSize - 1) currentBlock := by
      simp only [batchSize]
      omega
    have hpost := rule.pass hrange (Nat.min_le_right ..) c o c'
      ⟨hsettled, rule.assumed hL, hhead⟩ hrun
    cases o with
    | returned a =>
      obtain ⟨hsettled', hL', hhead'⟩ := hpost
      have hnext : min (lo + batchSize - 1) currentBlock + 1 =
          min (lo + batchSize) (currentBlock + 1) := by
        simp only [batchSize]
        omega
      exact ⟨hsettled', hhead', lo + batchSize, rfl, hnext ▸ hL'⟩
    | threw e => exact hpost
    | killed => exact hpost
  refine hloop.mono ?_ ?_ fun _ hc => hc
  · rintro c ⟨hsettled, hL, hle, hhead⟩
    have hlo : min lo (currentBlock + 1) = lo := by omega
    exact ⟨hsettled, hhead, lo, rfl, hlo.symm ▸ hL⟩
  · rintro _ c ⟨hsettled, -, lo', hrest, hL⟩
    rw [batches] at hrest
    split_ifs at hrest with hle
    have hlo : min lo' (currentBlock + 1) = currentBlock + 1 := by omega
    exact ⟨hsettled, hlo ▸ hL⟩

theorem holds_syncHistorical :
    Holds (servers chain contracts Faulty) A (Settled startBlock L lp)
      (syncHistorical factory startBlock) (fun _ => Settled startBlock L lp)
      (Settled startBlock L lp) := by
  unfold syncHistorical
  refine Holds.bind ((rule.holds_read (q := .indexerStateFindUnique) (P := fun _ => True)
    (fun _ => rfl) fun _ _ _ _ _ => trivial).mono (fun _ hc => ⟨hc, trivial⟩)
    (fun _ _ hc => hc) fun _ hc => hc) fun state => ?_
  refine Holds.bind ((rule.holds_read (q := .getBlockNumber)
    (P := fun c => fromBlock startBlock state = fromBlock startBlock c.2.db.lastBlock)
    (fun _ => rfl) fun _ _ _ hP hd => by rw [hd.1]; exact hP).mono ?_
    (fun _ _ hc => hc) fun _ hc => hc) fun currentBlock => ?_
  · rintro c ⟨⟨hsettled, -⟩, hstate⟩
    exact ⟨hsettled, congrArg _ (Except.ok.inj hstate).symm⟩
  · split_ifs with hskip
    · exact Holds.pure fun _ hc => hc.1.1
    · refine Holds.bind (rule.holds_batches.mono ?_ (fun _ _ hc => hc) fun _ hc => hc)
        fun _ => rule.holds_indexerStateUpsert
      rintro c ⟨⟨hsettled, hstate⟩, hhead⟩
      obtain rfl : c.2.head = currentBlock := Except.ok.inj hhead
      exact ⟨hsettled, hstate ▸ hsettled.stored, by omega, le_rfl⟩

theorem holds_start :
    Holds (servers chain contracts Faulty) A (fun c => c.1 = .initial ∧ I c.2)
      (start factory startBlock) (fun _ => Settled startBlock L (some 0)) (fun c => I c.2) := by
  unfold start
  refine Holds.bind (Q := fun _ => Settled startBlock L none) ?_ fun _ => ?_
  · unfold loadExistingPairs
    refine Holds.bind (Q := fun pairs c => c.1 = .initial ∧ I c.2 ∧ c.2.db.pairs = pairs) ?_
      fun pairs => ?_
    · apply Holds.call
      · exact fun c hc => hc.2
      · exact fun m s s₁ hc hd hA => ⟨hc.1, rule.grow hc.2 hd, rfl⟩
      · exact fun hS m s s₁ hc hd hA => ⟨rule.grow hc.2 hd, rule.grow hc.2 hd⟩
    · refine Holds.modify ?_
      rintro ⟨m, s⟩ ⟨rfl, hI, rfl⟩
      exact ⟨rfl, rule.load hI, nofun⟩
  · refine Holds.bind (rule.holds_syncHistorical.mono (fun _ hc => hc) (fun _ _ hc => hc)
      fun c hc => rule.stop hc) fun _ => ?_
    refine Holds.modify ?_
    rintro ⟨m, s⟩ hc
    exact ⟨rfl, rule.polled hc.stored _, fun n hn hne => absurd (Option.some.inj hn).symm hne⟩

theorem holds_poll :
    Holds (servers chain contracts Faulty) A (fun c => ∃ n, Settled startBlock L (some n) c)
      (poll factory) (fun _ c => ∃ n, Settled startBlock L (some n) c)
      (fun c => ∃ n, Settled startBlock L (some n) c) := by
  unfold poll
  refine Holds.tryCatch (X := fun c => ∃ n, Settled startBlock L (some n) c) ?_
    (fun _ => Holds.pure fun _ hc => hc) fun _ hc => hc
  refine Holds.ofExists fun n => ?_
  refine Holds.bind ((rule.holds_read (q := .getBlockNumber) (P := fun _ => True)
    (fun _ => rfl) fun _ _ _ _ _ => trivial).mono (fun _ hc => ⟨hc, trivial⟩)
    (fun _ _ hc => hc) fun _ hc => ⟨n, hc⟩) fun currentBlock => ?_
  refine Holds.get.bind fun memory => ?_
  dsimp only
  by_cases hskip : currentBlock ≤ memory.lastProcessed.getD 0
  · rw [if_pos hskip]
    exact Holds.pure fun c hc => ⟨n, hc.1.1.1⟩
  · rw [if_neg hskip]
    refine Holds.bind (Q := fun _ c => Settled startBlock L (some n) c ∧ L (currentBlock + 1) c) ?_
      fun _ => ?_
    · rintro c o c' ⟨⟨⟨hsettled, -⟩, hhead⟩, rfl⟩ hrun
      obtain rfl : c.2.head = currentBlock := Except.ok.inj hhead
      rw [hsettled.memory, Option.getD_some] at hrun hskip
      -- the first poll jumps to the head of the chain, the others go on where they were
      have hpass : ∃ lo, lo ≤ c.2.head ∧ K lo c ∧
          (if n = 0 then c.2.head else n + 1) = lo := by
        split_ifs with hfirst
        · subst hfirst
          exact ⟨_, le_rfl, rule.jump hsettled, rfl⟩
        · exact ⟨_, by omega, rule.assumed (hsettled.polled n rfl hfirst), rfl⟩
      obtain ⟨lo, hle, hK, hlo⟩ := hpass
      rw [hlo] at hrun
      have hpost := rule.pass hle le_rfl c o c' ⟨hsettled, hK, le_rfl⟩ hrun
      cases o with
      | returned a => exact ⟨hpost.1, hpost.2.1⟩
      | threw e => exact ⟨n, hpost⟩
      | killed => exact ⟨n, hpost⟩
    · refine Holds.bind (Q := fun _ c => Settled startBlock L (some currentBlock) c ∧
        L (currentBlock + 1) c) (Holds.modify ?_) fun _ => ?_
      · rintro ⟨m, s⟩ ⟨hsettled, hL⟩
        have hcurrent := rule.polled hL (some currentBlock)
        refine ⟨⟨rfl, rule.polled hsettled.stored _, ?_⟩, hcurrent⟩
        rintro k hk -
        obtain rfl := Option.some.inj hk
        exact hcurrent
      · exact rule.holds_indexerStateUpsert.mono (fun _ hc => hc) (fun _ _ hc => ⟨_, hc⟩)
          fun _ hc => ⟨_, hc⟩

/-- Every run keeps what the rule is about. -/
theorem reach {s : System} (h : Reach startBlock chain contracts Faulty A s) :
    match s.process with
    | none => I s.backend
    | some m => ∃ n, Settled startBlock L (some n) (m, s.backend) := by
  induction h with
  | initial head => exact rule.initial head
  | @grown db head head' p h hle ih =>
    cases p with
    | none => exact rule.grow ih ⟨rfl, hle⟩
    | some m =>
      obtain ⟨n, hn⟩ := ih
      exact ⟨n, rule.settled_drift hn ⟨rfl, hle⟩⟩
  | @started s m s' h hrun ih => exact ⟨0, rule.holds_start _ _ _ ⟨rfl, ih⟩ hrun⟩
  | @startFailed s o c h hrun ih =>
    have hpost := rule.holds_start _ _ _ ⟨rfl, ih⟩ hrun
    cases o with
    | returned a => exact rule.stop hpost
    | threw e => exact hpost
    | killed => exact hpost
  | @polled m s o m' s' h hrun ih =>
    have hpost := rule.holds_poll _ _ _ ih hrun
    cases o with
    | returned a => exact hpost
    | threw e => exact hpost
    | killed =>
      obtain ⟨n, hn⟩ := hpost
      exact rule.stop hn
  | @stopped s p h ih =>
    cases p with
    | none => exact ih
    | some m =>
      obtain ⟨n, hn⟩ := ih
      exact rule.stop hn

theorem stored_of_reach {s : System} (h : Reach startBlock chain contracts Faulty A s) :
    I s.backend := by
  have hreach := rule.reach h
  obtain ⟨backend, process⟩ := s
  cases process with
  | none => exact hreach
  | some m =>
    obtain ⟨n, hn⟩ := hreach
    exact rule.stop hn

end PassRule

theorem mem_loaded {s : Backend} {p : Address} :
    p ∈ (loaded s).trackedPairs ↔ p ∈ s.db.pairAddresses := by
  simp [loaded, mem_foldl_addPair]

theorem coherent_loaded (s : Backend) : Coherent (loaded s, s) :=
  ⟨nodup_foldl_addPair List.nodup_nil _, fun _ hp => mem_loaded.mp hp⟩

theorem Coherent.drift {m : Memory} {s s' : Backend} (h : Coherent (m, s))
    (hd : (servers chain contracts Faulty).drift s s') : Coherent (m, s') :=
  (h.frame.drift hd).coherent

/-- The rule for what holds regardless of cursors: of the tracked pairs and the database
of a running process, given the rows a pass may add, and of the database alone. -/
theorem PassRule.ofInvariant {V : List Address → Database → Prop}
    (hpass : ∀ {lo hi : ℕ} {m m' : Memory} {s s' : Backend} {pairs : List Address},
      V m.trackedPairs s.db → hi ≤ s.head →
      (∃ s₁, (servers chain contracts Faulty).drift s s₁ ∧
        A (.queryFilter factory .pairCreated lo hi) m s₁) →
      pairs.Nodup → pairs ⊆ m'.trackedPairs →
      Bounded (m, s) (s.db.recorded + (pairs.map (pairRefs chain lo hi)).sum) (m', s') →
      V m'.trackedPairs s'.db)
    (hmono : ∀ {pairs pairs' db}, V pairs db → pairs ⊆ pairs' → V pairs' db)
    (hcursor : ∀ {pairs db}, V pairs db → ∀ lastBlock, V pairs { db with lastBlock })
    (hinitial : V [] .empty) :
    PassRule chain contracts Faulty A startBlock (fun _ c => Coherent c ∧ V c.1.trackedPairs c.2.db)
      (fun _ c => Coherent c ∧ V c.1.trackedPairs c.2.db)
      (fun s => V s.db.pairAddresses s.db) where
  pass := by
    intro lo hi n lp hle hhi c o c' hc hrun
    obtain ⟨hsettled, ⟨hcoherent, hV⟩, hhead⟩ := hc
    obtain ⟨rfl, rfl⟩ | hA := hrun.first_await
    · exact hsettled
    · have hpost := holds_processBlockRange_bounded (hhi.trans hhead) c o c'
        ⟨hcoherent.frame, rfl⟩ hrun
      have hend : (∃ pairs : List Address, pairs.Nodup ∧ pairs ⊆ c'.1.trackedPairs ∧
          Bounded c (c.2.db.recorded + (pairs.map (pairRefs chain lo hi)).sum) c') →
          (Coherent c' ∧ V c'.1.trackedPairs c'.2.db) ∧ c'.1.lastProcessed = lp ∧
            n ≤ c'.2.head := by
        rintro ⟨pairs, hnodup, hsub, hbounded⟩
        exact ⟨⟨hbounded.1.coherent, hpass hV (hhi.trans hhead) hA hnodup hsub hbounded⟩,
          hbounded.1.lastProcessed.trans hsettled.memory, hhead.trans hbounded.1.head⟩
      cases o with
      | returned a =>
        obtain ⟨hL, hlp, hn⟩ := hend hpost
        exact ⟨⟨hlp, hL, fun _ _ _ => hL⟩, hL, hn⟩
      | threw e =>
        obtain ⟨hL, hlp, hn⟩ := hend hpost
        exact ⟨hlp, hL, fun _ _ _ => hL⟩
      | killed =>
        obtain ⟨hL, hlp, hn⟩ := hend hpost
        exact ⟨hlp, hL, fun _ _ _ => hL⟩
  assumed := fun h => h
  jump := fun h => h.stored
  drift := fun h hd => ⟨h.1.drift hd, by rw [hd.1]; exact h.2⟩
  polled := fun h _ => h
  stored := fun h _ => ⟨h.1, hcursor h.2 _⟩
  stop := fun h => hmono h.stored.2 h.stored.1.2
  load := fun h => ⟨coherent_loaded _, hmono h fun _ hp => mem_loaded.mpr hp⟩
  grow := fun h hd => by rw [hd.1]; exact h
  initial := fun _ => hinitial

/-- The rule for what a pass keeps of the database, whatever it is cut short by. -/
theorem PassRule.ofHolds {V : Database → Prop}
    (hpass : ∀ {lo hi n : ℕ}, hi ≤ n →
      Holds (servers chain contracts Faulty) A (fun c => V c.2.db ∧ n ≤ c.2.head)
        (processBlockRange factory lo hi) (fun _ c => V c.2.db) (fun c => V c.2.db))
    (hcursor : ∀ {db}, V db → ∀ lastBlock, V { db with lastBlock }) (hinitial : V .empty) :
    PassRule chain contracts Faulty A startBlock (fun _ c => Coherent c ∧ V c.2.db)
      (fun _ c => Coherent c ∧ V c.2.db) (fun s => V s.db) where
  pass := by
    intro lo hi n lp hle hhi c o c' hc hrun
    obtain ⟨hsettled, ⟨hcoherent, hV⟩, hhead⟩ := hc
    have hbounds := holds_processBlockRange_bounded (hhi.trans hhead) c o c'
      ⟨hcoherent.frame, rfl⟩ hrun
    have hkept := hpass (hhi.trans hhead) c o c' ⟨hV, le_rfl⟩ hrun
    have hend : (∃ pairs : List Address, pairs.Nodup ∧ pairs ⊆ c'.1.trackedPairs ∧
        Bounded c (c.2.db.recorded + (pairs.map (pairRefs chain lo hi)).sum) c') → V c'.2.db →
        (Coherent c' ∧ V c'.2.db) ∧ c'.1.lastProcessed = lp ∧ n ≤ c'.2.head := by
      rintro ⟨pairs, -, -, hbounded⟩ hV'
      exact ⟨⟨hbounded.1.coherent, hV'⟩, hbounded.1.lastProcessed.trans hsettled.memory,
        hhead.trans hbounded.1.head⟩
    cases o with
    | returned a =>
      obtain ⟨hL, hlp, hn⟩ := hend hbounds hkept
      exact ⟨⟨hlp, hL, fun _ _ _ => hL⟩, hL, hn⟩
    | threw e =>
      obtain ⟨hL, hlp, -⟩ := hend hbounds hkept
      exact ⟨hlp, hL, fun _ _ _ => hL⟩
    | killed =>
      obtain ⟨hL, hlp, -⟩ := hend hbounds hkept
      exact ⟨hlp, hL, fun _ _ _ => hL⟩
  assumed := fun h => h
  jump := fun h => h.stored
  drift := fun h hd => ⟨h.1.drift hd, by rw [hd.1]; exact h.2⟩
  polled := fun h _ => h
  stored := fun h _ => ⟨h.1, hcursor h.2 _⟩
  stop := fun h => h.stored.2
  load := fun h => ⟨coherent_loaded _, h⟩
  grow := fun h hd => by rw [hd.1]; exact h
  initial := fun _ => hinitial

end EnergyChain.Indexer
