import EnergyChain.Indexer.Cursors

/-!
# What start leaves

The number under `lastBlock` is never beyond the chain, and a process that begins to poll
tracks every pair in the database.
-/

namespace EnergyChain.Indexer

variable {factory : Address} {startBlock : ℕ} {chain : Chain factory}
  {contracts : Address → TokenContract} {Faulty : Prop} {A : Request → Memory → Backend → Prop}

/-- A request that neither stores the cursor nor a pair. -/
def Request.plain : Request → Bool
  | .indexerStateUpsert _ => false
  | .pairUpsert _ => false
  | _ => true

/-- A request that changes neither the cursor nor the pairs. -/
def Request.silent : Request → Bool
  | .pairUpdate .. => false
  | q => q.plain

/-- What is asked of a token and its row. -/
def Request.ofToken : Request → Bool
  | .tokenName _ | .tokenSymbol _ | .tokenDecimals _ | .tokenFindUnique _ | .tokenCreate _ => true
  | _ => false

theorem Request.plain_of_silent {q : Request} (h : q.silent = true) : q.plain = true := by
  cases q <;> simp_all [silent]

theorem Request.silent_of_ofToken {q : Request} (h : q.ofToken = true) : q.silent = true := by
  cases q <;> first | rfl | cases h

section Within

variable {W : (Memory → Memory) → Prop}

open Async (Within)

theorem within_ensureToken (address : Address) :
    (ensureToken address).Within (fun q => q.ofToken = true) W := by
  unfold ensureToken
  refine Within.bind (.call rfl) fun existing => ?_
  split_ifs
  · trivial
  · refine .tryCatch ?_ fun _ => .call rfl
    refine Within.bind (.tryCatch (.call rfl) fun _ => trivial) fun name => ?_
    refine Within.bind (.tryCatch (.call rfl) fun _ => trivial) fun symbol => ?_
    refine Within.bind (.tryCatch (.call rfl) fun _ => trivial) fun decimals => ?_
    exact .call rfl

theorem within_silent {α : Type} {p : Program α} (h : p.Within (fun q => q.ofToken = true) W) :
    p.Within (fun q => q.silent = true) W :=
  h.mono (fun _ => Request.silent_of_ofToken) fun _ hf => hf

theorem within_handlePairCreated {Q : Request → Prop} (htoken : ∀ q, q.ofToken = true → Q q)
    {token0 token1 pairAddr : Address} {blockNumber : ℕ}
    (hpair : ∀ data, data.address = pairAddr → Q (.pairUpsert data)) :
    (handlePairCreated token0 token1 pairAddr blockNumber).Within Q fun _ => True := by
  have hensure (address : Address) : (ensureToken address).Within Q fun _ => True :=
    (within_ensureToken address).mono htoken fun _ hf => hf
  unfold handlePairCreated
  apply Within.bind
  · exact fun _ => trivial
  · intro memory
    split_ifs
    · trivial
    · apply Within.bind (hensure token0)
      intro _
      apply Within.bind (hensure token1)
      intro _
      exact Within.bind (.call (hpair _ rfl)) fun _ => ⟨trivial, trivial⟩

theorem within_createRows (row : EventLog → Option (ℕ → Row)) (logs : List EventLog) :
    (createRows row logs).Within (fun q => q.silent = true) W := by
  refine .forEach fun log => ?_
  split
  · trivial
  · exact Within.bind (.call rfl) fun timestamp => .call rfl

theorem within_plain {α : Type} {p : Program α} (h : p.Within (fun q => q.silent = true) W) :
    p.Within (fun q => q.plain = true) W :=
  h.mono (fun _ => Request.plain_of_silent) fun _ hf => hf

theorem within_indexPairEvents (pairAddr : Address) (lo hi : ℕ) :
    (indexPairEvents pairAddr lo hi).Within (fun q => q.plain = true) W := by
  unfold indexPairEvents
  refine Within.bind (.call rfl) fun swapLogs => ?_
  refine Within.bind (.call rfl) fun mintLogs => ?_
  refine Within.bind (.call rfl) fun burnLogs => ?_
  refine Within.bind (.call rfl) fun syncLogs => ?_
  refine Within.bind (within_plain (within_createRows ..)) fun _ => ?_
  refine Within.bind (within_plain (within_createRows ..)) fun _ => ?_
  refine Within.bind (within_plain (within_createRows ..)) fun _ => ?_
  split
  · exact .call rfl
  · trivial

theorem within_processBlockRange (lo hi : ℕ) :
    (processBlockRange factory lo hi).Within (fun q => ∀ n, q ≠ .indexerStateUpsert n)
      fun _ => True := by
  have hplain : ∀ {α : Type} {p : Program α}, p.Within (fun q => q.plain = true) (fun _ => True) →
      p.Within (fun q => ∀ n, q ≠ .indexerStateUpsert n) fun _ => True := fun hp =>
    hp.mono (fun q hq n hn => by simp [hn, Request.plain] at hq) fun _ _ => trivial
  unfold processBlockRange
  refine Within.bind (.call nofun) fun logs => ?_
  refine Within.bind (.forEach fun log => ?_) fun _ => ?_
  · split
    · apply within_handlePairCreated
      · rintro q htoken n rfl
        cases htoken
      · exact fun _ _ => nofun
    · trivial
  · refine Within.bind (fun _ => trivial) fun memory => ?_
    exact .forEach fun pairAddr => hplain (within_indexPairEvents ..)

end Within

/-! ### The stored cursor -/

/-- The stored cursor and the number `n` are not beyond the chain. -/
def WithinChain (n : ℕ) (c : Memory × Backend) : Prop :=
  (∀ last ∈ c.2.db.lastBlock, last ≤ c.2.head) ∧ n ≤ c.2.head

variable {n : ℕ}

theorem WithinChain.drift {m : Memory} {s s' : Backend} (h : WithinChain n (m, s))
    (hd : (servers chain contracts Faulty).drift s s') : WithinChain n (m, s') := by
  obtain ⟨hdb, hhead⟩ := hd
  exact ⟨fun last hl => (h.1 last (hdb ▸ hl)).trans hhead, h.2.trans hhead⟩

theorem WithinChain.served {m : Memory} {s : Backend} (h : WithinChain n (m, s)) {q : Request}
    (hq : ∀ k, q ≠ .indexerStateUpsert k) :
    WithinChain n (m, (serve chain contracts q s).2) := by
  rw [WithinChain, serve_lastBlock hq, serve_head]
  exact h

theorem holds_pass {lo hi : ℕ} :
    Holds (servers chain contracts Faulty) A (WithinChain n) (processBlockRange factory lo hi)
      (fun _ => WithinChain n) (WithinChain n) :=
  (within_processBlockRange lo hi).holds (fun _ _ _ h hd => h.drift hd)
    (fun _ _ _ hq h => h.served hq) fun _ _ _ _ h => h

theorem holds_untouched {q : Request} (hq : ∀ k, q ≠ .indexerStateUpsert k) :
    Holds (servers chain contracts Faulty) A (WithinChain n) (Async.call q)
      (fun _ => WithinChain n) (WithinChain n) :=
  (Async.Within.call (W := fun _ => True) hq).holds (fun _ _ _ h hd => h.drift hd)
    (fun _ _ _ hq h => h.served hq) fun _ _ _ _ h => h

theorem holds_currentBlock :
    Holds (servers chain contracts Faulty) A (WithinChain 0) getBlockNumber WithinChain
      (WithinChain 0) := by
  apply Holds.call
  · exact fun c hc => hc
  · exact fun m s s' hc hd hA => ⟨(hc.drift hd).1, le_rfl⟩
  · exact fun hS m s s' hc hd hA => ⟨hc.drift hd, hc.drift hd⟩

theorem holds_storeCursor :
    Holds (servers chain contracts Faulty) A (WithinChain n) (indexerStateUpsert n)
      (fun _ => WithinChain 0) (WithinChain 0) := by
  have hstored : ∀ {m s}, WithinChain n (m, s) →
      WithinChain 0 (m, (serve chain contracts (.indexerStateUpsert n) s).2) := by
    intro m s hc
    refine ⟨fun last hl => ?_, Nat.zero_le _⟩
    obtain rfl : n = last := Option.some.inj hl
    exact hc.2
  apply Holds.call
  · exact fun c hc => ⟨hc.1, Nat.zero_le _⟩
  · exact fun m s s' hc hd hA => hstored (hc.drift hd)
  · exact fun hS m s s' hc hd hA => ⟨⟨(hc.drift hd).1, Nat.zero_le _⟩, hstored (hc.drift hd)⟩

theorem holds_start_withinChain :
    Holds (servers chain contracts Faulty) A (WithinChain 0) (start factory startBlock)
      (fun _ => WithinChain 0) (WithinChain 0) := by
  have hzero : ∀ n c, WithinChain n c → WithinChain 0 c := fun n c hc => ⟨hc.1, Nat.zero_le _⟩
  unfold start loadExistingPairs
  refine Holds.bind (Q := fun _ => WithinChain 0)
    ((holds_untouched (q := .pairFindMany) nofun).bind fun pairs =>
      Holds.modify fun c hc => hc) fun _ => ?_
  refine Holds.bind (Q := fun _ => WithinChain 0) ?_ fun _ => Holds.modify fun c hc => hc
  unfold syncHistorical
  refine (holds_untouched (q := .indexerStateFindUnique) nofun).bind fun state => ?_
  refine holds_currentBlock.bind fun currentBlock => ?_
  split_ifs
  · exact Holds.pure fun c hc => hzero _ c hc
  · refine Holds.bind (Q := fun _ => WithinChain currentBlock) ?_ fun _ => holds_storeCursor
    refine Holds.forEach_keeps fun (lo, hi) _ => ?_
    exact holds_pass.mono (fun _ hc => hc) (fun _ _ hc => hc) fun c hc => hzero _ c hc

theorem holds_poll_withinChain :
    Holds (servers chain contracts Faulty) A (WithinChain 0) (poll factory)
      (fun _ => WithinChain 0) (WithinChain 0) := by
  have hzero : ∀ n c, WithinChain n c → WithinChain 0 c := fun n c hc => ⟨hc.1, Nat.zero_le _⟩
  unfold poll
  refine Holds.tryCatch (X := WithinChain 0) ?_ (fun _ => Holds.pure fun _ hc => hc)
    fun _ hc => hc
  refine holds_currentBlock.bind fun currentBlock => ?_
  refine Holds.get.bind fun memory => ?_
  dsimp only
  by_cases hskip : currentBlock ≤ memory.lastProcessed.getD 0
  · rw [if_pos hskip]
    exact Holds.pure fun c hc => hzero _ c hc.1
  · rw [if_neg hskip]
    refine Holds.bind (Q := fun _ => WithinChain currentBlock)
      (holds_pass.mono (fun _ hc => hc.1) (fun _ _ hc => hc) fun c hc => hzero _ c hc) fun _ => ?_
    exact Holds.bind (Q := fun _ => WithinChain currentBlock)
      (Holds.modify fun c hc => hc) fun _ => holds_storeCursor

theorem withinChain_of_reach {s : System} (h : Reach startBlock chain contracts Faulty A s)
    (m : Memory) : WithinChain 0 (m, s.backend) := by
  -- what is said of the memory does not matter
  have hall : ∀ {m m' s}, WithinChain 0 (m, s) → WithinChain 0 (m', s) := fun h => h
  induction h with
  | initial head => exact ⟨nofun, Nat.zero_le _⟩
  | grown h hle ih => exact ⟨fun last hl => (ih.1 last hl).trans hle, Nat.zero_le _⟩
  | started h hrun ih => exact hall (holds_start_withinChain _ _ _ (hall ih) hrun)
  | @startFailed s o c h hrun ih =>
    have hpost := holds_start_withinChain _ _ _ (hall ih) hrun
    cases o with
    | returned a => exact hall hpost
    | threw e => exact hall hpost
    | killed => exact hall hpost
  | @polled m s o m' s' h hrun ih =>
    have hpost := holds_poll_withinChain _ _ _ (hall ih) hrun
    cases o with
    | returned a => exact hall hpost
    | threw e => exact hall hpost
    | killed => exact hall hpost
  | stopped h ih => exact ih

/-! ### The tracked pairs -/

/-- Every pair in the database is tracked, the given ones apart. -/
def TracksBut (pairs : List Address) (c : Memory × Backend) : Prop :=
  ∀ p ∈ c.2.db.pairAddresses, p ∈ c.1.trackedPairs ∨ p ∈ pairs

theorem pairAddresses_serve {q : Request} (hq : ∀ data, q ≠ .pairUpsert data) (s : Backend) :
    (serve chain contracts q s).2.db.pairAddresses = s.db.pairAddresses := by
  cases q with
  | pairUpsert data => exact absurd rfl (hq data)
  | tokenCreate data =>
    simp only [serve]
    obtain h | h := guardInsert_state s (!(s.db.tokens.map Token.address).contains data.address)
      true { s.db with tokens := s.db.tokens ++ [data] }
    · rw [h]
    · rw [h]
      rfl
  | create row =>
    simp only [serve]
    obtain h | h := guardInsert_state s true (s.db.pairAddresses.contains row.pairAddr)
      (row.insert s.db)
    · rw [h]
    · rw [h, Database.pairAddresses, Row.insert_pairs]
      rfl
  | pairUpdate address reserve0 reserve1 =>
    simp only [serve]
    split_ifs
    · exact map_address_setReserves ..
    · rfl
  | _ => rfl

/-- A stored pair is the only one that can be new. -/
theorem mem_pairAddresses_upsert {data : Pair} {s : Backend} {p : Address}
    (hp : p ∈ (serve chain contracts (.pairUpsert data) s).2.db.pairAddresses) :
    p ∈ s.db.pairAddresses ∨ p = data.address := by
  simp only [serve] at hp
  split_ifs at hp
  · exact .inl hp
  · obtain h | h := guardInsert_state s true
      ((s.db.tokens.map Token.address).contains data.token0Addr &&
        (s.db.tokens.map Token.address).contains data.token1Addr)
      { s.db with pairs := s.db.pairs ++ [data] }
    · rw [h] at hp
      exact .inl hp
    · rw [h, Database.pairAddresses, List.map_append] at hp
      exact (List.mem_append.mp hp).imp_right List.mem_singleton.mp

variable {pairs : List Address}

theorem TracksBut.drift {m : Memory} {s s' : Backend} (h : TracksBut pairs (m, s))
    (hd : (servers chain contracts Faulty).drift s s') : TracksBut pairs (m, s') :=
  fun p hp => h p (hd.1 ▸ hp)

theorem holds_tracksBut {α : Type} {p : Program α}
    (hp : p.Within (fun q => q.plain = true) fun _ => False) :
    Holds (servers chain contracts Faulty) A (TracksBut pairs) p (fun _ => TracksBut pairs)
      (TracksBut pairs) := by
  refine hp.holds (fun _ _ _ h hd => h.drift hd) (fun q m s hq h p hp => ?_) (fun _ _ _ h => h.elim)
  have hupsert : ∀ data, q ≠ .pairUpsert data := by
    rintro data rfl
    cases hq
  have hstored : p ∈ (serve chain contracts q s).2.db.pairAddresses := hp
  rw [pairAddresses_serve hupsert] at hstored
  exact h p hstored

theorem TracksBut.upserted {m : Memory} {s : Backend} (h : TracksBut [] (m, s)) (data : Pair) :
    TracksBut [data.address] (m, (serve chain contracts (.pairUpsert data) s).2) := by
  intro p hp
  rcases mem_pairAddresses_upsert hp with hold | hnew
  · exact (h p hold).imp_right fun hp => absurd hp List.not_mem_nil
  · exact .inr (List.mem_singleton.mpr hnew)

theorem holds_handlePairCreated_tracksBut {token0 token1 pairAddr : Address} {blockNumber : ℕ} :
    Holds (servers chain contracts Faulty) A (TracksBut [])
      (handlePairCreated token0 token1 pairAddr blockNumber) (fun _ => TracksBut [])
      fun _ => True := by
  have htoken : ∀ address, Holds (servers chain contracts Faulty) A (TracksBut [])
      (ensureToken address) (fun _ => TracksBut []) fun _ => True := fun address =>
    (holds_tracksBut (within_plain (within_silent (within_ensureToken address)))).mono
      (fun _ hc => hc) (fun _ _ hc => hc) fun _ _ => trivial
  unfold handlePairCreated
  refine Holds.get.bind fun memory => ?_
  split_ifs
  · exact Holds.pure fun c hc => hc.1
  · refine Holds.bind ((htoken token0).mono (fun _ hc => hc.1) (fun _ _ hc => hc) fun _ hc => hc)
      fun _ => ?_
    refine (htoken token1).bind fun _ => ?_
    refine Holds.bind (Q := fun _ => TracksBut [pairAddr]) ?_ fun _ => Holds.modify ?_
    · apply Holds.call
      · exact fun c hc => trivial
      · intro m s s' hc hd hA
        simp only [servers]
        split
        · exact (hc.drift hd).upserted _
        · trivial
      · exact fun hS m s s' hc hd hA => ⟨trivial, trivial⟩
    · intro c hc p hp
      rcases hc p hp with htracked | hp
      · exact Or.inl (mem_addPair.mpr (Or.inl htracked))
      · exact Or.inl (mem_addPair.mpr (Or.inr (List.mem_singleton.mp hp)))

theorem holds_processBlockRange_tracksBut {lo hi : ℕ} :
    Holds (servers chain contracts Faulty) A (TracksBut []) (processBlockRange factory lo hi)
      (fun _ => TracksBut []) fun _ => True := by
  apply holds_processBlockRange_keeps (L := fun _ => True)
  · apply (holds_tracksBut (.call rfl)).mono
    · exact fun c hc => hc
    · exact fun logs c hc => ⟨hc, fun _ _ => trivial⟩
    · exact fun _ _ => trivial
  · intro log _ token0 token1 pair n hevent
    exact holds_handlePairCreated_tracksBut
  · intro pair
    apply (holds_tracksBut (within_indexPairEvents ..)).mono
    · exact fun c hc => hc
    · exact fun _ c hc => hc
    · exact fun _ _ => trivial

/-- A process that begins to poll tracks every pair in the database. -/
theorem holds_start_tracked :
    Holds (servers chain contracts Faulty) A (fun _ => True) (start factory startBlock)
      (fun _ c => c.1.lastProcessed = some 0 ∧ TracksBut [] c) fun _ => True := by
  have hread : ∀ {q : Request}, q.plain = true →
      Holds (servers chain contracts Faulty) A (TracksBut []) (Async.call q)
        (fun _ => TracksBut []) fun _ => True := fun hq =>
    (holds_tracksBut (.call hq)).mono (fun _ hc => hc) (fun _ _ hc => hc) fun _ _ => trivial
  unfold start
  refine Holds.bind (Q := fun _ => TracksBut []) ?_ fun _ => ?_
  · unfold loadExistingPairs
    refine Holds.bind (Q := fun pairs c => c.2.db.pairs = pairs) ?_ fun pairs =>
      Holds.modify ?_
    · apply Holds.call
      · exact fun c hc => trivial
      · exact fun m s s' hc hd hA => rfl
      · exact fun hS m s s' hc hd hA => ⟨trivial, trivial⟩
    · rintro ⟨m, s⟩ rfl p hp
      exact Or.inl (mem_foldl_addPair.mpr (Or.inr hp))
  · refine Holds.bind (Q := fun _ => TracksBut []) ?_ fun _ =>
      Holds.modify fun c hc => ⟨rfl, hc⟩
    unfold syncHistorical
    refine (hread rfl).bind fun state => ?_
    refine (hread rfl).bind fun currentBlock => ?_
    split_ifs
    · exact Holds.pure fun c hc => hc
    · refine Holds.bind (Q := fun _ => TracksBut []) ?_ fun _ => ?_
      · exact Holds.forEach_keeps fun (lo, hi) _ =>
          holds_processBlockRange_tracksBut
      · apply Holds.call
        · exact fun c hc => trivial
        · intro m s s' hc hd hA
          have htracks := hc.drift hd
          exact htracks
        · exact fun hS m s s' hc hd hA => ⟨trivial, trivial⟩

end EnergyChain.Indexer
