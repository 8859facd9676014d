import EnergyChain.Indexer.Overlap
import EnergyChain.Indexer.Passes

/-!
# What the callbacks do in turn

Each step of callbacks that take turns keeps what `Sound` says of the process, and moves
no cursor backwards. Whole runs follow by induction.
-/

namespace EnergyChain.Indexer

variable {factory : Address} {chain : Chain factory} {contracts : Address → TokenContract}
  {first : ℕ} {w w' : Shared} {origin : Address → Option EventLog} {c c' : Callback}
  {others running running' : List Callback}

/-! ### A pair is tracked -/

theorem getElem?_addPair {tracked : List Address} {i : ℕ} {p : Address}
    (h : tracked[i]? = some p) (pair : Address) : (addPair tracked pair)[i]? = some p := by
  unfold addPair
  split_ifs
  · exact h
  · rwa [List.getElem?_append_left (List.getElem?_eq_some_iff.mp h).1]

theorem take_addPair {tracked : List Address} {i : ℕ} (h : i ≤ tracked.length) (pair : Address) :
    (addPair tracked pair).take i = tracked.take i := by
  unfold addPair
  split_ifs
  · rfl
  · exact List.take_append_of_le_length h

theorem length_le_addPair (tracked : List Address) (pair : Address) :
    tracked.length ≤ (addPair tracked pair).length := by
  unfold addPair
  split_ifs
  · exact le_rfl
  · simp

theorem Fits.visited_addPair (h : Fits chain first w origin c) (pair : Address) :
    c.visited (addPair w.memory.trackedPairs pair) = c.visited w.memory.trackedPairs := by
  cases c with
  | looping lo hi i => exact take_addPair (h.looping lo hi i rfl) pair
  | indexing lo hi i p =>
    have hi := (List.getElem?_eq_some_iff.mp (h.indexing lo hi i p rfl)).1
    exact take_addPair hi.le pair
  | _ => rfl

theorem Fits.addPair (h : Fits chain first w origin c) (pair : Address) :
    Fits chain first { w with memory :=
      { w.memory with trackedPairs := addPair w.memory.trackedPairs pair } } origin c where
  asked := h.asked
  toStore := h.toStore
  range := h.range
  storing := h.storing
  untracked := h.untracked
  creating := h.creating
  created := h.created
  looping lo hi i hc := (h.looping lo hi i hc).trans (length_le_addPair ..)
  indexing lo hi i p hc := getElem?_addPair (h.indexing lo hi i p hc) pair
  visited := (h.visited_addPair pair).symm ▸ h.visited

/-- A callback tracks a pair that was created in its range. Its range reaches beyond the
processed blocks, and it is still to loop over the pairs. -/
theorem Sound.addPair {pair : Address} {r : ℕ × ℕ} {b : ℕ}
    (h : Sound chain first w origin (c :: others)) (hvisited : ∀ pairs, c.visited pairs = [])
    (hr : r ∈ c.range) (hlo : r.1 ≤ b) (hcreated : chain.CreatedIn pair b) :
    Sound chain first { w with memory :=
      { w.memory with trackedPairs := addPair w.memory.trackedPairs pair } } origin
        (c :: others) where
  first_le := h.first_le
  cursor := h.cursor
  processed := h.processed
  lastBlock := h.lastBlock
  tracked p hp := (h.tracked p hp).imp (fun hp => mem_addPair.mpr (Or.inl hp)) id
  taken := h.taken
  rows := h.rows
  covered p hp x hx hprocessed := by
    have hc : ∀ pairs, p ∉ c.visited pairs := fun pairs => by simp [hvisited pairs]
    rcases mem_addPair.mp hp with hp | rfl
    · refine (h.covered p hp x hx hprocessed).imp id ?_
      rintro ⟨d, hd, hnew, hin⟩
      exact ⟨d, hd, ((h.fits d hd).visited_addPair pair).symm ▸ hnew, hin⟩
    · have hb : b ≤ x.ref.blockNumber := chain.created_le hcreated
        ⟨x.toLog, List.mem_of_getElem? (mem_blockLogs.mp hx.mined).2, hx.address⟩
      obtain ⟨r', hr', -, hhi⟩ := hprocessed
      have hle := h.processed r' hr'
      have hrange := (h.fits c List.mem_cons_self).range r hr
      exact Or.inr ⟨c, List.mem_cons_self, hc _, r, hr, hlo.trans hb, by
        have : x.ref.blockNumber ≤ w.lastProcessed := hhi.trans hle
        omega⟩
  fits d hd := (h.fits d hd).addPair pair

theorem Sound.tracked_next {lo hi : ℕ} {pair : Address} {logs : List EventLog}
    (h : Sound chain first w origin (.created lo hi pair logs :: others)) :
    Sound chain first { w with memory :=
      { w.memory with trackedPairs := Indexer.addPair w.memory.trackedPairs pair } } origin
        (.tracking lo hi logs :: others) := by
  have hfits := h.fits _ List.mem_cons_self
  obtain ⟨-, b, hlo, -, hcreated⟩ := hfits.created lo hi pair logs rfl
  have h' := h.addPair (r := (lo, hi)) (fun _ => rfl) rfl hlo hcreated
  refine h'.replace (fun p hp => Or.inl ?_) (fun r hr => hr) nofun ?_
  · exact mem_addPair.mpr (Or.inr (Option.some.inj hp).symm)
  · exact (h'.fits _ List.mem_cons_self).next rfl rfl nofun nofun (List.Subset.refl _) nofun nofun
      nofun nofun nofun

/-! ### The loop over the pairs -/

/-- No `Sync` log in the range is later than the one that the reserves were taken from. -/
theorem upTo_of_lastSync {pair : Address} {r : ℕ × ℕ}
    (h : ∀ log ∈ chain.lastSync pair r.1 r.2, ∃ y ∈ origin pair, log.ref.pos ≤ y.ref.pos) :
    UpTo chain origin pair r := by
  intro x hx hlo hhi
  cases hlast : chain.lastSync pair r.1 r.2 with
  | none => exact absurd (lastSync_eq_none hlast hx hlo) (not_lt.mpr hhi)
  | some log =>
    obtain ⟨y, hy, hle⟩ := h log hlast
    exact ⟨y, hy, ((lastSync_eq_some hlast).2.2 x hx hhi).trans hle⟩

theorem Sound.enter {lo hi : ℕ} (h : Sound chain first w origin (.tracking lo hi [] :: others)) :
    Sound chain first w origin (.looping lo hi 0 :: others) := by
  have hnone : (Callback.looping lo hi 0).visited w.memory.trackedPairs = [] := rfl
  refine h.replace nofun (fun r hr => hr) (fun r hr p hp => ?_) ?_
  · rw [hnone] at hp
    cases hp
  · refine (h.fits _ List.mem_cons_self).next rfl rfl nofun nofun nofun nofun nofun
      (fun lo' hi' i hc => ?_) nofun fun p hp => ?_
    · obtain ⟨-, -, rfl⟩ := Callback.looping.inj hc
      exact Nat.zero_le _
    · rw [hnone] at hp
      cases hp

theorem Sound.visit {lo hi i : ℕ} {pair : Address}
    (h : Sound chain first w origin (.looping lo hi i :: others))
    (hpair : w.memory.trackedPairs[i]? = some pair) :
    Sound chain first w origin (.indexing lo hi i pair :: others) := by
  have hfits := h.fits _ List.mem_cons_self
  refine h.replace nofun (fun r hr => hr) (fun r hr p hp => Or.inl hp) ?_
  refine hfits.next rfl rfl nofun nofun nofun nofun nofun nofun (fun lo' hi' i' p hc => ?_)
    hfits.visited
  obtain ⟨-, -, rfl, rfl⟩ := Callback.indexing.inj hc
  exact hpair

/-- The loop leaves a pair behind whose reserves are up to date with the range. -/
theorem Sound.advance {lo hi i : ℕ} {pair : Address}
    (h : Sound chain first w origin (.indexing lo hi i pair :: others))
    (hup : ∀ log ∈ chain.lastSync pair lo hi, ∃ y ∈ origin pair, log.ref.pos ≤ y.ref.pos) :
    Sound chain first w origin (.looping lo hi (i + 1) :: others) := by
  have hfits := h.fits _ List.mem_cons_self
  have hget := hfits.indexing lo hi i pair rfl
  have htake : w.memory.trackedPairs.take (i + 1) = w.memory.trackedPairs.take i ++ [pair] := by
    rw [List.take_add_one, hget]
    rfl
  have hvisited : ∀ p, p ∈ (Callback.looping lo hi (i + 1)).visited w.memory.trackedPairs →
      p ∈ (Callback.indexing lo hi i pair).visited w.memory.trackedPairs ∨ p = pair := by
    intro p hp
    have hp' : p ∈ w.memory.trackedPairs.take (i + 1) := hp
    rw [htake] at hp'
    exact (List.mem_append.mp hp').imp id List.mem_singleton.mp
  refine h.replace nofun (fun r hr => hr) (fun r hr p hp => ?_) ?_
  · refine (hvisited p hp).imp id ?_
    rintro rfl
    obtain rfl : (lo, hi) = r := Option.some.inj hr
    exact upTo_of_lastSync hup
  · refine hfits.next rfl rfl nofun nofun nofun nofun nofun (fun lo' hi' i' hc => ?_) nofun ?_
    · obtain ⟨-, -, rfl⟩ := Callback.looping.inj hc
      exact (List.getElem?_eq_some_iff.mp hget).1
    · intro p hp r hr
      rcases hvisited p hp with hp | rfl
      · exact hfits.visited p hp r hr
      · obtain rfl : (lo, hi) = r := Option.some.inj hr
        exact hup

/-- The reserves in the row of a pair are replaced. -/
def Shared.setReserves (w : Shared) (pair : Address) (reserve0 reserve1 : String) : Shared :=
  { w with backend := { w.backend with
    db := { w.backend.db with pairs := w.backend.db.pairs.map fun p =>
      if p.address = pair then { p with reserve0, reserve1 } else p } } }

@[simp] theorem Shared.pairAddresses_setReserves (w : Shared) (pair : Address)
    (reserve0 reserve1 : String) :
    (w.setReserves pair reserve0 reserve1).backend.db.pairAddresses = w.backend.db.pairAddresses :=
  map_address_setReserves ..

/-- Reserves are taken from a log that no other callback has taken them from a later one of. -/
theorem Fits.write {pair : Address} {log : EventLog} {reserve0 reserve1 : String}
    (h : Fits chain first w origin c)
    (hturn : pair ∈ c.visited w.memory.trackedPairs → ∀ r ∈ c.range,
      ∀ log' ∈ chain.lastSync pair r.1 r.2, log'.ref.pos ≤ log.ref.pos) :
    Fits chain first (w.setReserves pair reserve0 reserve1)
      (Function.update origin pair (some log)) c where
  asked := h.asked
  toStore := h.toStore
  range := h.range
  storing := h.storing
  untracked := h.untracked
  creating := h.creating
  created lo hi p logs hc := by
    rw [Shared.pairAddresses_setReserves]
    exact h.created lo hi p logs hc
  looping := h.looping
  indexing := h.indexing
  visited p hp r hr log' hlog' := by
    by_cases hpair : p = pair
    · subst hpair
      exact ⟨log, by simp, hturn hp r hr log' hlog'⟩
    · rw [Function.update_of_ne hpair]
      exact h.visited p hp r hr log' hlog'

theorem Sound.write {lo hi : ℕ} {pair : Address} {log : EventLog} {reserve0 reserve1 : ℕ}
    (h : Sound chain first w origin (c :: others)) (hrange : (lo, hi) ∈ c.range)
    (hlast : chain.lastSync pair lo hi = some log) (hevent : log.event = .sync reserve0 reserve1)
    (hpair : pair ∈ w.backend.db.pairAddresses)
    (hturn : ∀ d ∈ c :: others, pair ∈ d.visited w.memory.trackedPairs → ∀ r ∈ d.range,
      ∀ log' ∈ chain.lastSync pair r.1 r.2, log'.ref.pos ≤ log.ref.pos) :
    Sound chain first (w.setReserves pair (toString reserve0) (toString reserve1))
      (Function.update origin pair (some log)) (c :: others) where
  first_le := h.first_le
  cursor := h.cursor
  processed := h.processed
  lastBlock := h.lastBlock
  tracked p hp := by
    rw [Shared.pairAddresses_setReserves] at hp
    exact h.tracked p hp
  taken p y hy := by
    rw [Shared.pairAddresses_setReserves]
    by_cases hp : p = pair
    · subst hp
      obtain rfl : log = y := by simpa using hy
      obtain ⟨hsync, hin, -⟩ := lastSync_eq_some hlast
      exact ⟨hsync, hpair, Or.inr ⟨c, List.mem_cons_self, (lo, hi), hrange, hin⟩⟩
    · rw [Function.update_of_ne hp] at hy
      exact h.taken p y hy
  rows row hrow y hy r0 r1 hy' := by
    obtain ⟨row', hrow', rfl⟩ := List.mem_map.mp hrow
    split_ifs at hy ⊢ with hp
    · obtain rfl : log = y := by simpa [hp] using hy
      obtain ⟨rfl, rfl⟩ := Event.sync.inj (hevent.symm.trans hy')
      exact ⟨rfl, rfl⟩
    · rw [Function.update_of_ne hp] at hy
      exact h.rows row' hrow' y hy r0 r1 hy'
  covered p hp x hx hprocessed := by
    by_cases hne : p = pair
    · subst hne
      -- the processed blocks end before the range of the callback does
      obtain ⟨r, hr, -, hhi⟩ := hprocessed
      have hle := h.processed r hr
      have hcursor := (h.fits c List.mem_cons_self).range (lo, hi) hrange
      exact Or.inl ⟨log, by simp,
        (lastSync_eq_some hlast).2.2 x hx (hhi.trans (hle.trans hcursor))⟩
    · rw [Function.update_of_ne hne]
      exact h.covered p hp x hx hprocessed
  fits d hd := (h.fits d hd).write (hturn d hd)

/-- A range of blocks has been processed. -/
def Shared.finish (w : Shared) (r : ℕ × ℕ) : Shared :=
  { w with memory := { w.memory with lastProcessed := some r.2 }, processed := w.processed ++ [r] }

theorem Shared.processed_finish {r : ℕ × ℕ} {b : ℕ} :
    (w.finish r).Processed b ↔ w.Processed b ∨ r.1 ≤ b ∧ b ≤ r.2 := by
  constructor
  · rintro ⟨r', hr', hin⟩
    rcases List.mem_append.mp hr' with hr' | hr'
    · exact Or.inl ⟨r', hr', hin⟩
    · obtain rfl := List.mem_singleton.mp hr'
      exact Or.inr hin
  · rintro (⟨r', hr', hin⟩ | hin)
    · exact ⟨r', List.mem_append_left _ hr', hin⟩
    · exact ⟨r, List.mem_append_right _ (List.mem_singleton_self r), hin⟩

theorem Fits.finish {r : ℕ × ℕ} (h : Fits chain first w origin c) (hcursor : w.lastProcessed ≤ r.2)
    (hturn : ∀ r' ∈ c.range, r.2 ≤ r'.2) : Fits chain first (w.finish r) origin c where
  asked := h.asked
  toStore := h.toStore
  range := hturn
  storing n hn := (h.storing n hn).trans hcursor
  untracked := h.untracked
  creating := h.creating
  created := h.created
  looping := h.looping
  indexing := h.indexing
  visited := h.visited

theorem fits_storing {n : ℕ} (hfirst : first ≤ n) (hhead : n ≤ w.backend.head)
    (hlast : ∀ last ∈ w.backend.db.lastBlock, last ≤ n) (hcursor : n ≤ w.lastProcessed) :
    Fits chain first w origin (.storing n) where
  asked := nofun
  toStore m hm := by
    obtain rfl : n = m := Option.some.inj hm
    exact ⟨hfirst, hhead, hlast⟩
  range := nofun
  storing m hm := by
    obtain rfl := Callback.storing.inj hm
    exact hcursor
  untracked := nofun
  creating := nofun
  created := nofun
  looping := nofun
  indexing := nofun
  visited := nofun

/-- The log that the reserves of a pair were taken from is in a processed range still. -/
theorem Sound.taken_finish {lo hi i : ℕ} (h : Sound chain first w origin (.looping lo hi i :: others))
    (pair : Address) (y : EventLog) (hy : y ∈ origin pair) :
    chain.SyncOf pair y ∧ pair ∈ w.backend.db.pairAddresses ∧
      ((w.finish (lo, hi)).Processed y.ref.blockNumber ∨ ∃ d ∈ Callback.storing hi :: others,
        ∃ r ∈ d.range, r.1 ≤ y.ref.blockNumber ∧ y.ref.blockNumber ≤ r.2) := by
  obtain ⟨hsync, hstored, hin⟩ := h.taken pair y hy
  refine ⟨hsync, hstored, ?_⟩
  rcases hin with hin | ⟨d, hd, r, hr, hin⟩
  · exact Or.inl (Shared.processed_finish.mpr (Or.inl hin))
  · rcases List.mem_cons.mp hd with rfl | hd
    · obtain rfl : (lo, hi) = r := Option.some.inj hr
      exact Or.inl (Shared.processed_finish.mpr (Or.inr hin))
    · exact Or.inr ⟨d, List.mem_cons_of_mem _ hd, r, hr, hin⟩

/-- At its end the loop has visited every pair, so that the reserves are up to date with the
range. -/
theorem Sound.covered_finish {lo hi i : ℕ}
    (h : Sound chain first w origin (.looping lo hi i :: others))
    (hend : w.memory.trackedPairs[i]? = none) {pair : Address} (hpair : pair ∈ w.memory.trackedPairs)
    {x : EventLog} (hx : chain.SyncOf pair x)
    (hprocessed : (w.finish (lo, hi)).Processed x.ref.blockNumber) :
    (∃ y ∈ origin pair, x.ref.pos ≤ y.ref.pos) ∨
      ∃ d ∈ Callback.storing hi :: others, pair ∉ d.visited w.memory.trackedPairs ∧
        ∃ r ∈ d.range, r.1 ≤ x.ref.blockNumber ∧ x.ref.blockNumber ≤ r.2 := by
  have hall : w.memory.trackedPairs.take i = w.memory.trackedPairs :=
    List.take_of_length_le (List.getElem?_eq_none_iff.mp hend)
  have hvisited : pair ∈ (Callback.looping lo hi i).visited w.memory.trackedPairs := by
    rw [Callback.visited, hall]
    exact hpair
  rcases Shared.processed_finish.mp hprocessed with hold | ⟨hlo, hhi⟩
  · refine (h.covered pair hpair x hx hold).imp id ?_
    rintro ⟨d, hd, hnew, hin⟩
    rcases List.mem_cons.mp hd with rfl | hd
    · exact absurd hvisited hnew
    · exact ⟨d, List.mem_cons_of_mem _ hd, hnew, hin⟩
  · have hup := (h.fits _ List.mem_cons_self).visited pair hvisited (lo, hi) rfl
    exact Or.inl (upTo_of_lastSync hup x hx hlo hhi)

theorem Sound.finish {lo hi i : ℕ} (h : Sound chain first w origin (.looping lo hi i :: others))
    (hend : w.memory.trackedPairs[i]? = none)
    (hturn : ∀ d ∈ others, ∀ r ∈ d.range, hi ≤ r.2) :
    Sound chain first (w.finish (lo, hi)) origin (.storing hi :: others) := by
  have hfits := h.fits _ List.mem_cons_self
  obtain ⟨hfirst, hhead, hlast⟩ := hfits.toStore hi rfl
  have hcursor : w.lastProcessed ≤ hi := hfits.range (lo, hi) rfl
  exact
    { first_le := h.first_le
      cursor := hhead
      processed := fun r hr => by
        rcases List.mem_append.mp hr with hr | hr
        · exact (h.processed r hr).trans hcursor
        · obtain rfl := List.mem_singleton.mp hr
          exact le_rfl
      lastBlock := fun last hl => (h.lastBlock last hl).imp id fun hle => hle.trans hcursor
      tracked := fun p hp => by
        refine (h.tracked p hp).imp id ?_
        rintro ⟨d, hd, hadding⟩
        rcases List.mem_cons.mp hd with rfl | hd
        · cases hadding
        · exact ⟨d, List.mem_cons_of_mem _ hd, hadding⟩
      taken := h.taken_finish
      rows := h.rows
      covered := fun p hp x hx hprocessed => h.covered_finish hend hp hx hprocessed
      fits := fun d hd => by
        rcases List.mem_cons.mp hd with rfl | hd
        · exact fits_storing hfirst hhead hlast le_rfl
        · exact (h.fits d (List.mem_cons_of_mem _ hd)).finish hcursor (hturn d hd) }

theorem Sound.store {n : ℕ} (h : Sound chain first w origin (.storing n :: others))
    (hturn : ∀ d ∈ others, ∀ m ∈ d.toStore, n ≤ m) :
    Sound chain first { w with backend := { w.backend with
      db := { w.backend.db with lastBlock := some n } } } origin others := by
  have hn := (h.fits _ List.mem_cons_self).storing n rfl
  have h' := h.leave rfl rfl
  exact
    { first_le := h'.first_le
      cursor := h'.cursor
      processed := h'.processed
      lastBlock := fun last hlast => by
        obtain rfl : n = last := Option.some.inj hlast
        exact Or.inr hn
      tracked := h'.tracked
      taken := h'.taken
      rows := h'.rows
      covered := h'.covered
      fits := fun d hd =>
        { h'.fits d hd with
          toStore := fun m hm => by
            obtain ⟨hfirst, hhead, -⟩ := (h'.fits d hd).toStore m hm
            refine ⟨hfirst, hhead, fun last hlast => ?_⟩
            obtain rfl : n = last := Option.some.inj hlast
            exact hturn d hd m hm } }

/-! ### Steps and runs -/

/-- Neither cursor moves backwards. -/
def Shared.CursorsLe (w w' : Shared) : Prop :=
  w.lastProcessed ≤ w'.lastProcessed ∧
    ∀ last ∈ w.backend.db.lastBlock, ∃ last' ∈ w'.backend.db.lastBlock, last ≤ last'

theorem Shared.CursorsLe.of_eq (hmemory : w'.memory.lastProcessed = w.memory.lastProcessed)
    (hlast : w'.backend.db.lastBlock = w.backend.db.lastBlock) : w.CursorsLe w' := by
  refine ⟨?_, fun last h => ⟨last, hlast ▸ h, le_rfl⟩⟩
  rw [lastProcessed, lastProcessed, hmemory]

theorem Shared.CursorsLe.trans {w'' : Shared} (h : w.CursorsLe w') (h' : w'.CursorsLe w'') :
    w.CursorsLe w'' := by
  refine ⟨h.1.trans h'.1, fun last hl => ?_⟩
  obtain ⟨last', hl', hle⟩ := h.2 last hl
  obtain ⟨last'', hl'', hle'⟩ := h'.2 last' hl'
  exact ⟨last'', hl'', hle.trans hle'⟩

/-- With some callbacks in progress the process is sound, and no cursor went backwards. -/
def Advanced (chain : Chain factory) (first : ℕ) (w w' : Shared) (running : List Callback) : Prop :=
  (∃ origin, Sound chain first w' origin running) ∧ w.CursorsLe w'

theorem Sound.advanced (h : Sound chain first w origin running) :
    Advanced chain first w w running :=
  ⟨⟨origin, h⟩, .of_eq rfl rfl⟩

section Advances

variable {next : Option Callback}

theorem Sound.asked_advances {n : ℕ} (h : Sound chain first w origin (.asked n :: others))
    (hadvance : (Callback.asked n).advance chain contracts w = some (next, w')) :
    Advanced chain first w w' (next.toList ++ others) := by
  simp only [Callback.advance] at hadvance
  split_ifs at hadvance with hdone hzero
  · obtain ⟨rfl, rfl⟩ := Prod.mk.inj (Option.some.inj hadvance)
    exact (h.leave rfl rfl).advanced
  · obtain ⟨rfl, rfl⟩ := Prod.mk.inj (Option.some.inj hadvance)
    exact (h.begin (not_le.mp hdone)).advanced
  · obtain ⟨rfl, rfl⟩ := Prod.mk.inj (Option.some.inj hadvance)
    exact (h.begin (not_le.mp hdone)).advanced

theorem Sound.tracking_advances {lo hi : ℕ} {logs : List EventLog}
    (h : Sound chain first w origin (.tracking lo hi logs :: others))
    (hadvance : (Callback.tracking lo hi logs).advance chain contracts w = some (next, w')) :
    Advanced chain first w w' (next.toList ++ others) := by
  cases logs with
  | nil =>
    obtain ⟨rfl, rfl⟩ := Prod.mk.inj (Option.some.inj hadvance)
    exact h.enter.advanced
  | cons log logs =>
    simp only [Callback.advance] at hadvance
    split at hadvance
    · next hevent =>
      split_ifs at hadvance
      · obtain ⟨rfl, rfl⟩ := Prod.mk.inj (Option.some.inj hadvance)
        exact h.track.advanced
      · obtain ⟨rfl, rfl⟩ := Prod.mk.inj (Option.some.inj hadvance)
        exact (h.create hevent _ rfl).advanced
    · obtain ⟨rfl, rfl⟩ := Prod.mk.inj (Option.some.inj hadvance)
      exact h.track.advanced

theorem Sound.creating_advances {lo hi : ℕ} {pair : Pair} {logs : List EventLog}
    (h : Sound chain first w origin (.creating lo hi pair logs :: others))
    (hadvance : (Callback.creating lo hi pair logs).advance chain contracts w = some (next, w')) :
    Advanced chain first w w' (next.toList ++ others) := by
  obtain ⟨v, hrequest, hv⟩ := Option.map_eq_some_iff.mp hadvance
  obtain ⟨rfl, rfl⟩ := Prod.mk.inj hv
  refine ⟨⟨origin, h.upsert hrequest⟩, ?_⟩
  rcases request_pairUpsert hrequest with ⟨-, rfl⟩ | ⟨-, rfl⟩
  · exact .of_eq rfl rfl
  · exact .of_eq rfl rfl

theorem Sound.looping_advances {lo hi i : ℕ}
    (h : Sound chain first w origin (.looping lo hi i :: others))
    (hturn : InTurn chain w (.looping lo hi i) others)
    (hadvance : (Callback.looping lo hi i).advance chain contracts w = some (next, w')) :
    Advanced chain first w w' (next.toList ++ others) := by
  simp only [Callback.advance] at hadvance
  split at hadvance
  · next hpair =>
    obtain ⟨rfl, rfl⟩ := Prod.mk.inj (Option.some.inj hadvance)
    exact (h.visit hpair).advanced
  · next hend =>
    obtain ⟨rfl, rfl⟩ := Prod.mk.inj (Option.some.inj hadvance)
    have hcursor : w.lastProcessed ≤ hi := (h.fits _ List.mem_cons_self).range (lo, hi) rfl
    exact ⟨⟨origin, h.finish hend (hturn hend)⟩, hcursor, fun last hlast => ⟨last, hlast, le_rfl⟩⟩

/-- A callback takes the reserves from the last log in its range, if there is one. -/
theorem Sound.indexing_advances {lo hi i : ℕ} {pair : Address}
    (h : Sound chain first w origin (.indexing lo hi i pair :: others))
    (hturn : InTurn chain w (.indexing lo hi i pair) others)
    (hadvance : (Callback.indexing lo hi i pair).advance chain contracts w = some (next, w')) :
    Advanced chain first w w' (next.toList ++ others) := by
  simp only [Callback.advance] at hadvance
  cases hlast : chain.lastSync pair lo hi with
  | none =>
    rw [hlast] at hadvance
    obtain ⟨rfl, rfl⟩ := Prod.mk.inj (Option.some.inj hadvance)
    refine (h.advance ?_).advanced
    rw [hlast]
    exact nofun
  | some log =>
    obtain ⟨hsync, -, -⟩ := lastSync_eq_some hlast
    obtain ⟨reserve0, reserve1, hevent⟩ := hsync.event
    rw [hlast, Option.map_some, hevent] at hadvance
    obtain ⟨v, hrequest, hv⟩ := Option.map_eq_some_iff.mp hadvance
    obtain ⟨rfl, rfl⟩ := Prod.mk.inj hv
    obtain ⟨hpair, rfl⟩ := request_pairUpdate hrequest
    have hlatest : ∀ d ∈ Callback.indexing lo hi i pair :: others,
        pair ∈ d.visited w.memory.trackedPairs → ∀ r ∈ d.range,
          ∀ log' ∈ chain.lastSync pair r.1 r.2, log'.ref.pos ≤ log.ref.pos := by
      intro d hd hvisited r hr log' hlog'
      rcases List.mem_cons.mp hd with rfl | hd
      · obtain rfl : (lo, hi) = r := Option.some.inj hr
        rw [hlast] at hlog'
        rw [Option.some.inj hlog']
      · exact hturn log hlast d hd hvisited r hr log' hlog'
    have hwritten := h.write rfl hlast hevent hpair hlatest
    refine ⟨⟨_, hwritten.advance fun log' hlog' => ⟨log, by simp, ?_⟩⟩, .of_eq rfl rfl⟩
    rw [hlast] at hlog'
    rw [Option.some.inj hlog']

theorem Sound.storing_advances {n : ℕ} (h : Sound chain first w origin (.storing n :: others))
    (hturn : InTurn chain w (.storing n) others)
    (hadvance : (Callback.storing n).advance chain contracts w = some (next, w')) :
    Advanced chain first w w' (next.toList ++ others) := by
  simp only [Callback.advance, Option.map_eq_some_iff] at hadvance
  obtain ⟨v, hrequest, hv⟩ := hadvance
  obtain ⟨rfl, rfl⟩ := Prod.mk.inj hv
  obtain rfl := request_indexerStateUpsert hrequest
  refine ⟨⟨origin, h.store hturn⟩, le_rfl, fun last hlast => ⟨n, rfl, ?_⟩⟩
  exact ((h.fits _ List.mem_cons_self).toStore n rfl).2.2 last hlast

/-- What one callback does while the others wait. -/
theorem Sound.advances (h : Sound chain first w origin (c :: others))
    (hturn : InTurn chain w c others)
    (hadvance : c.advance chain contracts w = some (next, w')) :
    Advanced chain first w w' (next.toList ++ others) := by
  cases c with
  | asking =>
    obtain ⟨rfl, rfl⟩ := Prod.mk.inj (Option.some.inj hadvance)
    exact h.answer.advanced
  | asked n => exact h.asked_advances hadvance
  | tracking lo hi logs => exact h.tracking_advances hadvance
  | creating lo hi pair logs => exact h.creating_advances hadvance
  | created lo hi pair logs =>
    obtain ⟨rfl, rfl⟩ := Prod.mk.inj (Option.some.inj hadvance)
    exact ⟨⟨origin, h.tracked_next⟩, .of_eq rfl rfl⟩
  | looping lo hi i => exact h.looping_advances hturn hadvance
  | indexing lo hi i pair => exact h.indexing_advances hturn hadvance
  | storing n => exact h.storing_advances hturn hadvance

end Advances

theorem Sound.step {p p' : Polling} (h : Sound chain first p.shared origin p.running)
    (hstep : Step chain contracts (InTurn chain) p p') :
    Advanced chain first p.shared p'.shared p'.running := by
  cases hstep with
  | grow hhead => exact ⟨⟨origin, h.backend hhead rfl rfl⟩, .of_eq rfl rfl⟩
  | fire => exact h.fire.advanced
  | quiet db hpairs hlast => exact ⟨⟨origin, h.backend le_rfl hpairs hlast⟩, .of_eq rfl hlast⟩
  | @move w w' before after c c' hturn hadvance =>
    have hfirst : ∀ d, d ∈ before ++ c :: after ↔ d ∈ c :: (before ++ after) := fun d => by
      simp only [List.mem_append, List.mem_cons, or_left_comm]
    have hback : ∀ d, d ∈ c'.toList ++ (before ++ after) ↔ d ∈ before ++ c'.toList ++ after :=
      fun d => by simp only [List.mem_append, or_left_comm, or_assoc]
    obtain ⟨⟨origin', hsound⟩, hcursors⟩ := (h.congr hfirst).advances hturn hadvance
    exact ⟨⟨origin', hsound.congr hback⟩, hcursors⟩

/-- What holds of a process and its cursors carries over to whole runs. -/
theorem Sound.polls {p p' : Polling} (h : Sound chain first p.shared origin p.running)
    (hpolls : Polls chain contracts (InTurn chain) p p') :
    Advanced chain first p.shared p'.shared p'.running := by
  induction hpolls with
  | refl => exact h.advanced
  | tail hpolls hstep ih =>
    obtain ⟨⟨origin', hsound⟩, hcursors⟩ := ih
    obtain ⟨hsound', hcursors'⟩ := hsound.step hstep
    exact ⟨hsound', hcursors.trans hcursors'⟩

/-- The reserves of every pair that are stored are those of its latest `Sync` log in the
processed blocks. -/
def Shared.LatestReserves (chain : Chain factory) (w : Shared) : Prop :=
  ∀ row ∈ w.backend.db.pairs, ∀ log, chain.SyncOf row.address log →
    w.Processed log.ref.blockNumber →
    (∀ log', chain.SyncOf row.address log' → w.Processed log'.ref.blockNumber →
      log'.ref.pos ≤ log.ref.pos) →
    ∀ reserve0 reserve1, log.event = .sync reserve0 reserve1 →
      row.reserve0 = toString reserve0 ∧ row.reserve1 = toString reserve1

theorem Sound.latestReserves (h : Sound chain first w origin []) : w.LatestReserves chain := by
  intro row hrow log hlog hprocessed hlatest reserve0 reserve1 hevent
  have hpair : row.address ∈ w.memory.trackedPairs := by
    refine (h.tracked row.address (List.mem_map_of_mem hrow)).resolve_right ?_
    rintro ⟨c, hc, -⟩
    cases hc
  have hcovered := (h.covered row.address hpair log hlog hprocessed).resolve_right (by
    rintro ⟨c, hc, -⟩
    cases hc)
  obtain ⟨y, hy, hle⟩ := hcovered
  obtain ⟨hsync, -, hin⟩ := h.taken row.address y hy
  have hy' : w.Processed y.ref.blockNumber := hin.resolve_right (by
    rintro ⟨c, hc, -⟩
    cases hc)
  obtain rfl := eq_of_ref_eq hlog.mined hsync.mined
    (ref_eq_of_pos_eq (hle.antisymm (hlatest y hsync hy')))
  exact h.rows row hrow log hy reserve0 reserve1 hevent

end EnergyChain.Indexer
