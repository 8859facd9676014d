import EnergyChain.Indexer.Callbacks
import EnergyChain.Indexer.Readiness

/-!
# Callbacks run the poll program

The states of a callback are those of `poll` between two awaits: whatever `poll` does
until it returns, a callback does, while the others wait.
-/

namespace EnergyChain.Indexer

open Async (Within)

variable {factory : Address} {chain : Chain factory} {contracts : Address → TokenContract}
  {Faulty : Prop} {A : Request → Memory → Backend → Prop}

theorem serve_silent {q : Request} (hq : q.silent = true) (s : Backend) :
    (serve chain contracts q s).2.db.pairs = s.db.pairs ∧
      (serve chain contracts q s).2.db.lastBlock = s.db.lastBlock := by
  cases q with
  | tokenCreate data =>
    simp only [serve]
    obtain h | h := guardInsert_state s (!(s.db.tokens.map Token.address).contains data.address)
      true { s.db with tokens := s.db.tokens ++ [data] }
    · rw [h]
      exact ⟨rfl, rfl⟩
    · rw [h]
      exact ⟨rfl, rfl⟩
  | create row =>
    simp only [serve]
    obtain h | h := guardInsert_state s true (s.db.pairAddresses.contains row.pairAddr)
      (row.insert s.db)
    · rw [h]
      exact ⟨rfl, rfl⟩
    · rw [h]
      exact ⟨row.insert_pairs s.db, row.insert_lastBlock s.db⟩
  | indexerStateUpsert n => cases hq
  | pairUpsert data => cases hq
  | pairUpdate address reserve0 reserve1 => cases hq
  | _ => exact ⟨rfl, rfl⟩

/-- The callbacks can lead the process here, and the block `n` is on the chain. -/
def Gets (chain : Chain factory) (contracts : Address → TokenContract) (start : Polling)
    (processed : List (ℕ × ℕ)) (running : List Callback) (n : ℕ) (c : Memory × Backend) : Prop :=
  Polls chain contracts (fun _ _ _ => True) start ⟨⟨c.2, c.1, processed⟩, running⟩ ∧ n ≤ c.2.head

variable {start : Polling} {processed processed' : List (ℕ × ℕ)} {c : Callback}
  {d : Option Callback} {others running : List Callback} {n : ℕ} {m m' : Memory}
  {s s' : Backend}

theorem Gets.drift (h : Gets chain contracts start processed running n (m, s))
    (hd : (servers chain contracts Faulty).drift s s') :
    Gets chain contracts start processed running n (m, s') := by
  obtain ⟨hdb, hhead⟩ := hd
  refine ⟨h.1.tail ?_, h.2.trans hhead⟩
  have hs : s' = { s with head := s'.head } := by
    obtain ⟨db, head⟩ := s
    obtain ⟨db', head'⟩ := s'
    simp_all
  rw [hs]
  exact .grow hhead

theorem Gets.quiet (h : Gets chain contracts start processed running n (m, s)) {q : Request}
    (hq : q.silent = true) :
    Gets chain contracts start processed running n (m, (serve chain contracts q s).2) := by
  obtain ⟨hpairs, hlast⟩ : (serve chain contracts q s).2.db.pairs = s.db.pairs ∧
      (serve chain contracts q s).2.db.lastBlock = s.db.lastBlock := serve_silent hq s
  have hhead : (serve chain contracts q s).2.head = s.head := serve_head q s
  refine ⟨h.1.tail ?_, h.2.trans hhead.ge⟩
  have hs : (serve chain contracts q s).2 = { s with db := (serve chain contracts q s).2.db } := by
    generalize serve chain contracts q s = r at *
    obtain ⟨r, db, head⟩ := r
    simp_all
  rw [hs]
  exact .quiet _ hpairs hlast

theorem Gets.move (h : Gets chain contracts start processed (c :: others) n (m, s))
    (hadvance : c.advance chain contracts ⟨s, m, processed⟩ =
      some (d, ⟨s', m', processed'⟩)) {k : ℕ} (hhead : k ≤ s'.head) :
    Gets chain contracts start processed' (d.toList ++ others) k (m', s') := by
  have hstep : Step chain contracts (fun _ _ _ => True) ⟨⟨s, m, processed⟩, [] ++ c :: others⟩
      ⟨⟨s', m', processed'⟩, [] ++ d.toList ++ others⟩ := .move trivial hadvance
  exact ⟨h.1.tail hstep, hhead⟩

/-! ### The parts of the program -/

section Parts

/-- Awaits that leave the cursor and the pairs alone, and what else a program does with
their answers. -/
theorem holds_silent {α : Type} {p : Program α}
    (hp : p.Within (fun q => q.silent = true) fun _ => False) :
    Holds (servers chain contracts Faulty) A (Gets chain contracts start processed running n) p
      (fun _ => Gets chain contracts start processed running n) fun _ => True :=
  (hp.holds (fun _ _ _ h hd => h.drift hd) (fun _ _ _ hq h => h.quiet hq)
    fun _ _ _ h => h.elim).mono (fun _ hc => hc) (fun _ _ hc => hc) fun _ _ => trivial

theorem holds_filter {address : Address} {kind : EventKind} {lo hi : ℕ} (hhi : hi ≤ n) :
    Holds (servers chain contracts Faulty) A (Gets chain contracts start processed running n)
      (queryFilter address kind lo hi)
      (fun logs c => Gets chain contracts start processed running n c ∧
        logs = chain.queryFilter address kind lo hi) fun _ => True := by
  apply Holds.call
  · exact fun c hc => trivial
  · intro m s s' hc hd hA
    have hc' := hc.drift hd
    exact ⟨hc', by rw [min_eq_left (hhi.trans hc'.2)]⟩
  · exact fun hS m s s' hc hd hA => ⟨trivial, trivial⟩

/-- An await at which a callback goes on when it is answered. -/
theorem holds_answered {q : Request}
    (hadvance : ∀ w w', request chain contracts q w = some w' →
      c.advance chain contracts w = some (d, w')) :
    Holds (servers chain contracts Faulty) A
      (Gets chain contracts start processed (c :: others) n) (Async.call q)
      (fun _ => Gets chain contracts start processed (d.toList ++ others) n)
      fun _ => True := by
  apply Holds.call
  · exact fun c hc => trivial
  · intro m s s' hc hd hA
    simp only [servers]
    cases hserve : (serve chain contracts q s').1 with
    | ok b =>
      have hc' := hc.drift hd
      refine hc'.move (hadvance _ _ ?_) (hc'.2.trans (serve_head q s').ge)
      unfold request
      rw [show serve chain contracts q s' = (.ok b, (serve chain contracts q s').2) from
        Prod.ext hserve rfl]
    | error e => trivial
  · exact fun hS m s s' hc hd hA => ⟨trivial, trivial⟩

variable {lo hi i : ℕ} {log : EventLog} {logs : List EventLog} {pairAddr : Address}

theorem holds_created :
    Holds (servers chain contracts Faulty) A
      (Gets chain contracts start processed (.tracking lo hi logs :: others) n)
      (Async.forEach logs fun log =>
        match log.event with
        | .pairCreated token0 token1 pair _ =>
          handlePairCreated token0 token1 pair log.ref.blockNumber
        | _ => pure ())
      (fun _ => Gets chain contracts start processed (.tracking lo hi [] :: others) n)
      fun _ => True := by
  refine Holds.forEach (I := fun logs =>
    Gets chain contracts start processed (.tracking lo hi logs :: others) n) fun log logs => ?_
  split
  · next token0 token1 pair k hevent =>
    unfold handlePairCreated
    refine Holds.get.bind fun memory => ?_
    split_ifs with htracked
    · refine Holds.pure fun ⟨m, s⟩ ⟨hc, hm⟩ => ?_
      obtain rfl : m = memory := hm
      refine hc.move (d := some (.tracking lo hi logs)) ?_ hc.2
      simp only [Callback.advance, hevent, if_pos htracked]
    · -- the callback goes on to the first await of `ensureToken`
      let data : Pair := { address := pair, token0Addr := token0, token1Addr := token1
                           blockNumber := log.ref.blockNumber }
      refine Holds.mono (P := Gets chain contracts start processed
        (.creating lo hi data logs :: others) n) ?_ (fun ⟨m, s⟩ ⟨hc, hm⟩ => ?_) (fun _ _ hc => hc)
        fun _ hc => hc
      · refine (holds_silent (within_silent (within_ensureToken token0))).bind fun _ => ?_
        refine (holds_silent (within_silent (within_ensureToken token1))).bind fun _ => ?_
        refine (holds_answered (d := some (.created lo hi pair logs)) fun w w' hw => ?_).bind
          fun _ => Holds.modify fun ⟨m, s⟩ hc => ?_
        · simp only [Callback.advance]
          rw [hw]
          rfl
        · exact hc.move (d := some (.tracking lo hi logs)) rfl hc.2
      · obtain rfl : m = memory := hm
        refine hc.move (d := some (.creating lo hi data logs)) ?_ hc.2
        simp only [Callback.advance, hevent, if_neg htracked, data]
  · next hevent =>
    refine Holds.pure fun ⟨m, s⟩ hc => ?_
    refine hc.move (d := some (.tracking lo hi logs)) ?_ hc.2
    simp only [Callback.advance]

theorem holds_indexed (hhi : hi ≤ n) :
    Holds (servers chain contracts Faulty) A
      (Gets chain contracts start processed (.indexing lo hi i pairAddr :: others) n)
      (indexPairEvents pairAddr lo hi)
      (fun _ => Gets chain contracts start processed (.looping lo hi (i + 1) :: others) n)
      fun _ => True := by
  unfold indexPairEvents
  refine (holds_silent (.call rfl)).bind fun swapLogs => ?_
  refine (holds_silent (.call rfl)).bind fun mintLogs => ?_
  refine (holds_silent (.call rfl)).bind fun burnLogs => ?_
  refine (holds_filter hhi).bind fun syncLogs => Holds.assume ?_
  rintro rfl
  refine (holds_silent (within_createRows ..)).bind fun _ => ?_
  refine (holds_silent (within_createRows ..)).bind fun _ => ?_
  refine (holds_silent (within_createRows ..)).bind fun _ => ?_
  split
  · next reserve0 reserve1 hsync =>
    refine holds_answered (d := some (.looping lo hi (i + 1))) fun w w' hw => ?_
    simp only [Callback.advance, Chain.lastSync, hsync]
    rw [hw]
    rfl
  · next hsync =>
    refine Holds.pure fun ⟨m, s⟩ hc => ?_
    refine hc.move (d := some (.looping lo hi (i + 1))) ?_ hc.2
    simp only [Callback.advance, Chain.lastSync]

theorem holds_looped {pairs : List Address} (hhi : hi ≤ n) :
    Holds (servers chain contracts Faulty) A
      (fun c => Gets chain contracts start processed (.looping lo hi 0 :: others) n c ∧
        c.1.trackedPairs = pairs)
      (Async.forEach pairs fun pairAddr => indexPairEvents pairAddr lo hi)
      (fun _ c => ∃ i, Gets chain contracts start processed (.looping lo hi i :: others) n c ∧
        c.1.trackedPairs[i]? = none) fun _ => True := by
  -- the pairs that are left are those from the index of the callback on
  let I : List Address → Memory × Backend → Prop := fun rest c =>
    ∃ i, Gets chain contracts start processed (.looping lo hi i :: others) n c ∧
      c.1.trackedPairs.drop i = rest
  have hloop : Holds (servers chain contracts Faulty) A (I pairs)
      (Async.forEach pairs fun pairAddr => indexPairEvents pairAddr lo hi) (fun _ => I [])
      fun _ => True := by
    apply Holds.forEach
    rintro pairAddr rest
    refine Holds.ofExists fun i => ?_
    rintro ⟨m, s⟩ o c' ⟨hc, hrest⟩ hrun
    have hget : m.trackedPairs[i]? = some pairAddr := by
      rw [← List.head?_drop, hrest]
      rfl
    have hbegun : Gets chain contracts start processed (.indexing lo hi i pairAddr :: others) n
        (m, s) :=
      hc.move (d := some (.indexing lo hi i pairAddr)) (by simp only [Callback.advance, hget]) hc.2
    have hmemory : Holds (servers chain contracts Faulty) A (fun c => c.1 = m)
        (indexPairEvents pairAddr lo hi) (fun _ c => c.1 = m) fun c => c.1 = m :=
      (within_indexPairEvents (W := fun _ => False) pairAddr lo hi).holds (fun _ _ _ h _ => h)
        (fun _ _ _ _ h => h) fun _ _ _ h => h.elim
    have hpost := (holds_indexed hhi).and hmemory _ o c' ⟨hbegun, rfl⟩ hrun
    cases o with
    | returned a =>
      obtain ⟨hc', rfl⟩ := hpost
      exact ⟨i + 1, hc', by rw [← List.drop_drop, hrest]; rfl⟩
    | threw e => trivial
    | killed => trivial
  refine hloop.mono (fun c hc => ⟨0, hc⟩) (fun _ c hc => ?_) fun _ hc => hc
  obtain ⟨i, hgets, hdrop⟩ := hc
  exact ⟨i, hgets, by rw [← List.head?_drop, hdrop]; rfl⟩

theorem holds_passed (hhi : hi ≤ n) :
    Holds (servers chain contracts Faulty) A
      (Gets chain contracts start processed
        (.tracking lo hi (chain.queryFilter factory .pairCreated lo hi) :: others) n)
      (processBlockRange factory lo hi)
      (fun _ c => ∃ i, Gets chain contracts start processed (.looping lo hi i :: others) n c ∧
        c.1.trackedPairs[i]? = none) fun _ => True := by
  unfold processBlockRange
  refine (holds_filter hhi).bind fun logs => Holds.assume ?_
  rintro rfl
  refine holds_created.bind fun _ => ?_
  refine Holds.get.bind fun memory => ?_
  refine (holds_looped hhi).mono (fun ⟨m, s⟩ hc => ?_) (fun _ _ hc => hc) fun _ hc => hc
  obtain ⟨hc, rfl⟩ := hc
  exact ⟨hc.move (d := some (.looping lo hi 0)) rfl hc.2, rfl⟩

end Parts

/-! ### The program -/

/-- What `poll` does unless an await fails. -/
def pollBody (factory : Address) : Program Unit := do
  let currentBlock ← getBlockNumber
  let memory ← Async.get
  let lastProcessed := memory.lastProcessed.getD 0
  if currentBlock ≤ lastProcessed then pure ()
  else
    let lo := if lastProcessed = 0 then currentBlock else lastProcessed + 1
    processBlockRange factory lo currentBlock
    Async.modify fun m => { m with lastProcessed := some currentBlock }
    indexerStateUpsert currentBlock

theorem poll_eq : poll factory = MonadExcept.tryCatch (pollBody factory) fun _ => pure () := rfl

theorem holds_processed {lo currentBlock : ℕ} :
    Holds (servers chain contracts Faulty) A
      (Gets chain contracts start processed (.tracking lo currentBlock
        (chain.queryFilter factory .pairCreated lo currentBlock) :: others) currentBlock)
      (do
        processBlockRange factory lo currentBlock
        Async.modify fun m => { m with lastProcessed := some currentBlock }
        indexerStateUpsert currentBlock)
      (fun _ c => ∃ processed', Gets chain contracts start processed' others 0 c)
      fun _ => True := by
  refine (holds_passed le_rfl).bind fun _ => Holds.ofExists fun i => ?_
  refine Holds.bind (Q := fun _ => Gets chain contracts start (processed ++ [(lo, currentBlock)])
    (.storing currentBlock :: others) currentBlock) (Holds.modify fun ⟨m, s⟩ ⟨hc, hend⟩ => ?_)
    fun _ => ?_
  · refine hc.move (d := some (.storing currentBlock)) ?_ hc.2
    simp only [Callback.advance, hend]
  · refine (holds_answered (d := none) fun w w' hw => ?_).mono (fun _ hc => hc)
      (fun _ c hc => ⟨_, hc.1, Nat.zero_le _⟩) fun _ hc => hc
    simp only [Callback.advance]
    rw [hw]
    rfl

theorem holds_pollBody (processed : List (ℕ × ℕ)) (others : List Callback) :
    Holds (servers chain contracts Faulty) A
      (Gets chain contracts start processed (.asking :: others) 0) (pollBody factory)
      (fun _ c => ∃ processed', Gets chain contracts start processed' others 0 c)
      fun _ => True := by
  unfold pollBody
  refine Holds.bind (Q := fun currentBlock =>
    Gets chain contracts start processed (.asked currentBlock :: others) currentBlock) ?_
    fun currentBlock => ?_
  · apply Holds.call
    · exact fun c hc => trivial
    · intro m s s' hc hd hA
      have hasked : Gets chain contracts start processed (.asked s'.head :: others) s'.head
          (m, s') := (hc.drift hd).move (d := some (.asked s'.head)) rfl le_rfl
      exact hasked
    · exact fun hS m s s' hc hd hA => ⟨trivial, trivial⟩
  refine Holds.get.bind fun memory => ?_
  dsimp only
  by_cases hskip : currentBlock ≤ memory.lastProcessed.getD 0
  · rw [if_pos hskip]
    refine Holds.pure fun ⟨m, s⟩ ⟨hc, hm⟩ => ?_
    obtain rfl : m = memory := hm
    exact ⟨processed, hc.move (d := none) (if_pos hskip) (Nat.zero_le _)⟩
  · rw [if_neg hskip]
    refine Holds.mono (P := Gets chain contracts start processed
      (.tracking _ currentBlock _ :: others) currentBlock) holds_processed
      (fun ⟨m, s⟩ ⟨hc, hm⟩ => ?_) (fun _ _ hc => hc) fun _ hc => hc
    obtain rfl : m = memory := hm
    exact hc.move (d := some (.tracking _ _ _)) (if_neg hskip) hc.2

/-- A `poll` that returns without having caught an error is what a callback does while
the others wait. -/
theorem polls_of_poll {o : Outcome Failure Unit}
    (hrun : Runs (servers chain contracts Faulty) A (poll factory) (m, s) o (m', s')) :
    o = .killed ∨
      (∃ e c, Runs (servers chain contracts Faulty) A (pollBody factory) (m, s) (.threw e) c) ∨
        ∃ processed', Polls chain contracts (fun _ _ _ => True)
          ⟨⟨s, m, processed⟩, .asking :: others⟩ ⟨⟨s', m', processed'⟩, others⟩ := by
  rw [poll_eq] at hrun
  rcases hrun.of_handle with ⟨hbody, hne⟩ | ⟨e, c, hbody, -⟩
  · have hgets := holds_pollBody processed others _ _ _ ⟨.refl, Nat.zero_le _⟩ hbody
    cases o with
    | returned a =>
      obtain ⟨processed', hpolls, -⟩ := hgets
      exact Or.inr (Or.inr ⟨processed', hpolls⟩)
    | threw e => exact absurd rfl (hne e)
    | killed => exact Or.inl rfl
  · exact Or.inr (Or.inl ⟨e, c, hbody⟩)

end EnergyChain.Indexer
