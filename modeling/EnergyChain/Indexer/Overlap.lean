import EnergyChain.Indexer.SyncLogs
import Mathlib.Tactic

/-!
# Callbacks in turn

A slow callback that read an early block number may finish after a fast one that read a
later number, and sets the cursors and the reserves back. As long as the callbacks take
turns, in the order of the numbers that they read, the cursors never go back, and when no
callback is in progress the reserves are those of the latest `Sync` log of the processed
blocks.
-/

namespace EnergyChain.Indexer

variable {factory : Address} (chain : Chain factory) (contracts : Address → TokenContract)

/-! ### Turns -/

namespace Callback

/-- The blocks that a callback is processing. -/
def range : Callback → Option (ℕ × ℕ)
  | .tracking lo hi _ => some (lo, hi)
  | .creating lo hi _ _ => some (lo, hi)
  | .created lo hi _ _ => some (lo, hi)
  | .looping lo hi _ => some (lo, hi)
  | .indexing lo hi _ _ => some (lo, hi)
  | _ => none

/-- The block number that a callback is going to store. -/
def toStore (c : Callback) : Option ℕ :=
  match c with
  | .storing currentBlock => some currentBlock
  | _ => c.range.map Prod.snd

/-- The pairs whose events a callback has indexed. -/
def visited (trackedPairs : List Address) : Callback → List Address
  | .looping _ _ i => trackedPairs.take i
  | .indexing _ _ i _ => trackedPairs.take i
  | _ => []

end Callback

/-- No callback ends its loop over the pairs, which sets `lastProcessed`, or stores its
block number before those in progress that read a smaller one, and none writes reserves
over those that another one in progress took from a later `Sync` log. -/
def InTurn (w : Shared) (c : Callback) (others : List Callback) : Prop :=
  match c with
  | .looping _ hi i =>
    w.memory.trackedPairs[i]? = none → ∀ c' ∈ others, ∀ r ∈ c'.range, hi ≤ r.2
  | .indexing lo hi _ pairAddr =>
    ∀ log ∈ chain.lastSync pairAddr lo hi, ∀ c' ∈ others,
      pairAddr ∈ c'.visited w.memory.trackedPairs → ∀ r ∈ c'.range,
        ∀ log' ∈ chain.lastSync pairAddr r.1 r.2, log'.ref.pos ≤ log.ref.pos
  | .storing currentBlock => ∀ c' ∈ others, ∀ n ∈ c'.toStore, currentBlock ≤ n
  | _ => True

/-! ### What holds in turn -/

/-- The block is in a range that has been processed. -/
def Shared.Processed (w : Shared) (b : ℕ) : Prop := ∃ r ∈ w.processed, r.1 ≤ b ∧ b ≤ r.2

/-- The pairs that a callback has found created and still has to track. -/
def Callback.untracked : Callback → List EventLog
  | .tracking _ _ logs => logs
  | .creating _ _ _ logs => logs
  | .created _ _ _ logs => logs
  | _ => []

def Callback.adding : Callback → Option Address
  | .creating _ _ pair _ => some pair.address
  | .created _ _ pairAddr _ => some pairAddr
  | _ => none

/-- What holds of a callback in progress, given the log that the reserves of each pair
were taken from last. All block numbers are from `first` on. -/
structure Fits (first : ℕ) (w : Shared) (origin : Address → Option EventLog) (c : Callback) :
    Prop where
  asked : ∀ n, c = .asked n → first ≤ n ∧ n ≤ w.backend.head
  toStore : ∀ n ∈ c.toStore, first ≤ n ∧ n ≤ w.backend.head ∧
    ∀ last ∈ w.backend.db.lastBlock, last ≤ n
  range : ∀ r ∈ c.range, w.lastProcessed ≤ r.2
  storing : ∀ n, c = .storing n → n ≤ w.lastProcessed
  untracked : ∀ r ∈ c.range, ∀ log ∈ c.untracked, ∃ b, r.1 ≤ b ∧ b ≤ r.2 ∧
    log ∈ chain.blockLogs b ∧ log.address = factory
  creating : ∀ lo hi pair logs, c = .creating lo hi pair logs →
    ∃ b, lo ≤ b ∧ b ≤ hi ∧ chain.CreatedIn pair.address b
  created : ∀ lo hi pair logs, c = .created lo hi pair logs → pair ∈ w.backend.db.pairAddresses ∧
    ∃ b, lo ≤ b ∧ b ≤ hi ∧ chain.CreatedIn pair b
  looping : ∀ lo hi i, c = .looping lo hi i → i ≤ w.memory.trackedPairs.length
  indexing : ∀ lo hi i pair, c = .indexing lo hi i pair → w.memory.trackedPairs[i]? = some pair
  visited : ∀ pair ∈ c.visited w.memory.trackedPairs, ∀ r ∈ c.range,
    ∀ log ∈ chain.lastSync pair r.1 r.2, ∃ y ∈ origin pair, log.ref.pos ≤ y.ref.pos

/-- What holds of a process whose callbacks take turns. -/
structure Sound (first : ℕ) (w : Shared) (origin : Address → Option EventLog)
    (running : List Callback) : Prop where
  first_le : first ≤ w.backend.head
  cursor : w.lastProcessed ≤ w.backend.head
  processed : ∀ r ∈ w.processed, r.2 ≤ w.lastProcessed
  lastBlock : ∀ last ∈ w.backend.db.lastBlock, last ≤ first ∨ last ≤ w.lastProcessed
  tracked : ∀ pair ∈ w.backend.db.pairAddresses, pair ∈ w.memory.trackedPairs ∨
    ∃ c ∈ running, pair ∈ c.adding
  taken : ∀ pair, ∀ y ∈ origin pair, chain.SyncOf pair y ∧ pair ∈ w.backend.db.pairAddresses ∧
    (w.Processed y.ref.blockNumber ∨ ∃ c ∈ running, ∃ r ∈ c.range,
      r.1 ≤ y.ref.blockNumber ∧ y.ref.blockNumber ≤ r.2)
  rows : ∀ row ∈ w.backend.db.pairs, ∀ y ∈ origin row.address, ∀ reserve0 reserve1,
    y.event = .sync reserve0 reserve1 →
      row.reserve0 = toString reserve0 ∧ row.reserve1 = toString reserve1
  covered : ∀ pair ∈ w.memory.trackedPairs, ∀ x, chain.SyncOf pair x →
    w.Processed x.ref.blockNumber → (∃ y ∈ origin pair, x.ref.pos ≤ y.ref.pos) ∨
      ∃ c ∈ running, pair ∉ c.visited w.memory.trackedPairs ∧ ∃ r ∈ c.range,
        r.1 ≤ x.ref.blockNumber ∧ x.ref.blockNumber ≤ r.2
  fits : ∀ c ∈ running, Fits chain first w origin c

section Kept

variable {chain} {contracts} {first : ℕ} {w w' : Shared} {origin : Address → Option EventLog}
  {c c' : Callback} {others running running' : List Callback}

/-- The reserves of a pair were taken from a log that no `Sync` log of it in a range is
later than. -/
def UpTo (chain : Chain factory) (origin : Address → Option EventLog) (pair : Address)
    (r : ℕ × ℕ) : Prop :=
  ∀ x, chain.SyncOf pair x → r.1 ≤ x.ref.blockNumber → x.ref.blockNumber ≤ r.2 →
    ∃ y ∈ origin pair, x.ref.pos ≤ y.ref.pos

/-- Other callbacks take over what those in progress stand for. -/
theorem Sound.exchange (h : Sound chain first w origin running)
    (hadding : ∀ d ∈ running, ∀ pair ∈ d.adding, pair ∈ w.memory.trackedPairs ∨
      ∃ d' ∈ running', pair ∈ d'.adding)
    (hrange : ∀ d ∈ running, ∀ r ∈ d.range, ∃ d' ∈ running', r ∈ d'.range)
    (hvisited : ∀ d ∈ running, ∀ r ∈ d.range, ∀ pair, pair ∉ d.visited w.memory.trackedPairs →
      UpTo chain origin pair r ∨
        ∃ d' ∈ running', pair ∉ d'.visited w.memory.trackedPairs ∧ r ∈ d'.range)
    (hfits : ∀ d ∈ running', Fits chain first w origin d) :
    Sound chain first w origin running' where
  first_le := h.first_le
  cursor := h.cursor
  processed := h.processed
  lastBlock := h.lastBlock
  tracked pair hpair := by
    rcases h.tracked pair hpair with htracked | ⟨d, hd, hmem⟩
    · exact Or.inl htracked
    · exact hadding d hd pair hmem
  taken pair y hy := by
    obtain ⟨hsync, hstored, hin⟩ := h.taken pair y hy
    refine ⟨hsync, hstored, hin.imp id ?_⟩
    rintro ⟨d, hd, r, hr, hblock⟩
    obtain ⟨d', hd', hr'⟩ := hrange d hd r hr
    exact ⟨d', hd', r, hr', hblock⟩
  rows := h.rows
  covered pair hpair x hx hprocessed := by
    rcases h.covered pair hpair x hx hprocessed with hy | ⟨d, hd, hnew, r, hr, hlo, hhi⟩
    · exact Or.inl hy
    · rcases hvisited d hd r hr pair hnew with hup | ⟨d', hd', hnew', hr'⟩
      · exact Or.inl (hup x hx hlo hhi)
      · exact Or.inr ⟨d', hd', hnew', r, hr', hlo, hhi⟩
  fits := hfits

theorem Sound.congr (h : Sound chain first w origin running)
    (hmem : ∀ c, c ∈ running ↔ c ∈ running') : Sound chain first w origin running' :=
  h.exchange (fun d hd _ hpair => Or.inr ⟨d, (hmem d).mp hd, hpair⟩)
    (fun d hd _ hr => ⟨d, (hmem d).mp hd, hr⟩)
    (fun d hd _ hr _ hnew => Or.inr ⟨d, (hmem d).mp hd, hnew, hr⟩)
    fun d hd => h.fits d ((hmem d).mpr hd)

theorem Sound.replace (h : Sound chain first w origin (c :: others))
    (hadding : ∀ pair ∈ c.adding, pair ∈ w.memory.trackedPairs ∨ pair ∈ c'.adding)
    (hrange : ∀ r ∈ c.range, r ∈ c'.range)
    (hvisited : ∀ r ∈ c.range, ∀ pair ∈ c'.visited w.memory.trackedPairs,
      pair ∈ c.visited w.memory.trackedPairs ∨ UpTo chain origin pair r)
    (hfits : Fits chain first w origin c') : Sound chain first w origin (c' :: others) := by
  refine h.exchange (fun d hd pair hpair => ?_) (fun d hd r hr => ?_)
    (fun d hd r hr pair hnew => ?_) fun d hd => ?_
  · rcases List.mem_cons.mp hd with rfl | hd
    · exact (hadding pair hpair).imp id fun hpair' => ⟨c', List.mem_cons_self, hpair'⟩
    · exact Or.inr ⟨d, List.mem_cons_of_mem c' hd, hpair⟩
  · rcases List.mem_cons.mp hd with rfl | hd
    · exact ⟨c', List.mem_cons_self, hrange r hr⟩
    · exact ⟨d, List.mem_cons_of_mem c' hd, hr⟩
  · rcases List.mem_cons.mp hd with rfl | hd
    · by_cases hmem : pair ∈ c'.visited w.memory.trackedPairs
      · exact Or.inl ((hvisited r hr pair hmem).resolve_left hnew)
      · exact Or.inr ⟨c', List.mem_cons_self, hmem, hrange r hr⟩
    · exact Or.inr ⟨d, List.mem_cons_of_mem c' hd, hnew, hr⟩
  · rcases List.mem_cons.mp hd with rfl | hd
    · exact hfits
    · exact h.fits d (List.mem_cons_of_mem c hd)

theorem fits_asking : Fits chain first w origin .asking where
  asked := nofun
  toStore := nofun
  range := nofun
  storing := nofun
  untracked := nofun
  creating := nofun
  created := nofun
  looping := nofun
  indexing := nofun
  visited := nofun

theorem Sound.fire (h : Sound chain first w origin running) :
    Sound chain first w origin (running ++ [.asking]) := by
  refine h.exchange (fun d hd _ hpair => Or.inr ⟨d, List.mem_append_left _ hd, hpair⟩)
    (fun d hd _ hr => ⟨d, List.mem_append_left _ hd, hr⟩)
    (fun d hd _ hr _ hnew => Or.inr ⟨d, List.mem_append_left _ hd, hnew, hr⟩) fun d hd => ?_
  rcases List.mem_append.mp hd with hd | hd
  · exact h.fits d hd
  · obtain rfl := List.mem_singleton.mp hd
    exact fits_asking

theorem Sound.leave (h : Sound chain first w origin (c :: others)) (hrange : c.range = none)
    (hadding : c.adding = none) : Sound chain first w origin others := by
  refine h.exchange (fun d hd pair hpair => ?_) (fun d hd r hr => ?_)
    (fun d hd r hr pair hnew => ?_) fun d hd => h.fits d (List.mem_cons_of_mem c hd)
  · rcases List.mem_cons.mp hd with rfl | hd
    · rw [hadding] at hpair
      cases hpair
    · exact Or.inr ⟨d, hd, hpair⟩
  · rcases List.mem_cons.mp hd with rfl | hd
    · rw [hrange] at hr
      cases hr
    · exact ⟨d, hd, hr⟩
  · rcases List.mem_cons.mp hd with rfl | hd
    · rw [hrange] at hr
      cases hr
    · exact Or.inr ⟨d, hd, hnew, hr⟩

theorem Fits.next (h : Fits chain first w origin c) (hrange : c'.range = c.range)
    (hstore : c'.toStore = c.toStore) (hasked : ∀ n, c' ≠ .asked n)
    (hstoring : ∀ n, c' ≠ .storing n) (huntracked : c'.untracked ⊆ c.untracked)
    (hcreating : ∀ lo hi pair logs, c' = .creating lo hi pair logs →
      ∃ b, lo ≤ b ∧ b ≤ hi ∧ chain.CreatedIn pair.address b)
    (hcreated : ∀ lo hi pair logs, c' = .created lo hi pair logs →
      pair ∈ w.backend.db.pairAddresses ∧ ∃ b, lo ≤ b ∧ b ≤ hi ∧ chain.CreatedIn pair b)
    (hlooping : ∀ lo hi i, c' = .looping lo hi i → i ≤ w.memory.trackedPairs.length)
    (hindexing : ∀ lo hi i pair, c' = .indexing lo hi i pair →
      w.memory.trackedPairs[i]? = some pair)
    (hvisited : ∀ pair ∈ c'.visited w.memory.trackedPairs, ∀ r ∈ c.range,
      ∀ log ∈ chain.lastSync pair r.1 r.2, ∃ y ∈ origin pair, log.ref.pos ≤ y.ref.pos) :
    Fits chain first w origin c' where
  asked n hn := absurd hn (hasked n)
  toStore := hstore ▸ h.toStore
  range := hrange ▸ h.range
  storing n hn := absurd hn (hstoring n)
  untracked r hr log hlog := h.untracked r (hrange ▸ hr) log (huntracked hlog)
  creating := hcreating
  created := hcreated
  looping := hlooping
  indexing := hindexing
  visited pair hpair r hr := hvisited pair hpair r (hrange ▸ hr)

theorem Sound.answer (h : Sound chain first w origin (.asking :: others)) :
    Sound chain first w origin (.asked w.backend.head :: others) := by
  refine h.replace nofun nofun nofun ?_
  exact
    { asked := fun n hn => by
        obtain rfl := Callback.asked.inj hn
        exact ⟨h.first_le, le_rfl⟩
      toStore := nofun
      range := nofun
      storing := nofun
      untracked := nofun
      creating := nofun
      created := nofun
      looping := nofun
      indexing := nofun
      visited := nofun }

/-- A callback that read a later number than `lastProcessed` begins with its range. -/
theorem Sound.begin {n lo : ℕ} (h : Sound chain first w origin (.asked n :: others))
    (hnew : w.lastProcessed < n) :
    Sound chain first w origin
      (.tracking lo n (chain.queryFilter factory .pairCreated lo n) :: others) := by
  obtain ⟨hfirst, hhead⟩ := (h.fits _ List.mem_cons_self).asked n rfl
  refine h.replace nofun nofun nofun ?_
  exact
    { asked := nofun
      toStore := fun m hm => by
        obtain rfl : n = m := Option.some.inj hm
        refine ⟨hfirst, hhead, fun last hlast => ?_⟩
        have := h.lastBlock last hlast
        omega
      range := fun r hr => by
        obtain rfl : (lo, n) = r := Option.some.inj hr
        exact hnew.le
      storing := nofun
      untracked := fun r hr log hlog => by
        obtain rfl : (lo, n) = r := Option.some.inj hr
        obtain ⟨hmem, haddress, -⟩ := mem_queryFilter.mp hlog
        obtain ⟨b, hb⟩ := mem_logs.mp hmem
        exact ⟨b, hb.1, hb.2.1, hb.2.2, haddress⟩
      creating := nofun
      created := nofun
      looping := nofun
      indexing := nofun
      visited := nofun }

theorem Sound.track {lo hi : ℕ} {log : EventLog} {logs : List EventLog}
    (h : Sound chain first w origin (.tracking lo hi (log :: logs) :: others)) :
    Sound chain first w origin (.tracking lo hi logs :: others) := by
  refine h.replace nofun (fun r hr => hr) nofun ?_
  exact (h.fits _ List.mem_cons_self).next rfl rfl nofun nofun (List.subset_cons_self ..) nofun
    nofun nofun nofun nofun

theorem Sound.create {lo hi : ℕ} {log : EventLog} {logs : List EventLog}
    {token0 token1 pair : Address} {n : ℕ}
    (h : Sound chain first w origin (.tracking lo hi (log :: logs) :: others))
    (hevent : log.event = .pairCreated token0 token1 pair n) (p : Pair) (hp : p.address = pair) :
    Sound chain first w origin (.creating lo hi p logs :: others) := by
  have hfits := h.fits _ List.mem_cons_self
  refine h.replace nofun (fun r hr => hr) nofun ?_
  refine hfits.next rfl rfl nofun nofun (List.subset_cons_self ..)
    (fun lo' hi' p' logs' hc => ?_) nofun nofun nofun nofun
  obtain ⟨rfl, rfl, rfl, rfl⟩ := Callback.creating.inj hc
  obtain ⟨b, hlo, hhi, hmined, haddress⟩ := hfits.untracked (lo, hi) rfl log List.mem_cons_self
  refine ⟨b, hlo, hhi, log.toLog, List.mem_of_getElem? (mem_blockLogs.mp hmined).2, haddress, ?_⟩
  rw [hevent, hp]

/-! ### Changes of the database -/

theorem request_pairUpsert {pair : Pair}
    (h : request chain contracts (.pairUpsert pair) w = some w') :
    (pair.address ∈ w.backend.db.pairAddresses ∧ w' = w) ∨
      (pair.address ∉ w.backend.db.pairAddresses ∧ w' = { w with backend := { w.backend with
        db := { w.backend.db with pairs := w.backend.db.pairs ++ [pair] } } }) := by
  unfold request serve guardInsert at h
  by_cases hmem : pair.address ∈ w.backend.db.pairAddresses
  · simp only [hmem, if_true, Option.some.injEq] at h
    exact Or.inl ⟨hmem, h.symm⟩
  · simp only [hmem, if_false] at h
    split_ifs at h
    simp only [Option.some.injEq] at h
    exact Or.inr ⟨hmem, h.symm⟩

theorem request_pairUpdate {pair : Address} {reserve0 reserve1 : String}
    (h : request chain contracts (.pairUpdate pair reserve0 reserve1) w = some w') :
    pair ∈ w.backend.db.pairAddresses ∧ w' = { w with backend := { w.backend with
      db := { w.backend.db with pairs := w.backend.db.pairs.map fun p =>
        if p.address = pair then { p with reserve0, reserve1 } else p } } } := by
  unfold request serve at h
  by_cases hmem : pair ∈ w.backend.db.pairAddresses
  · simp only [hmem, if_true, Option.some.injEq] at h
    exact ⟨hmem, h.symm⟩
  · simp [hmem] at h

theorem request_indexerStateUpsert {n : ℕ}
    (h : request chain contracts (.indexerStateUpsert n) w = some w') :
    w' = { w with backend := { w.backend with
      db := { w.backend.db with lastBlock := some n } } } :=
  (Option.some.inj h).symm

/-- Pairs and blocks may be added behind a callback's back. -/
theorem Fits.mono (h : Fits chain first w origin c) (hhead : w.backend.head ≤ w'.backend.head)
    (hlast : w'.backend.db.lastBlock = w.backend.db.lastBlock) (hmemory : w'.memory = w.memory)
    (hpairs : w.backend.db.pairAddresses ⊆ w'.backend.db.pairAddresses) :
    Fits chain first w' origin c where
  asked n hn := ⟨(h.asked n hn).1, (h.asked n hn).2.trans hhead⟩
  toStore n hn := by
    obtain ⟨hfirst, hle, hstored⟩ := h.toStore n hn
    exact ⟨hfirst, hle.trans hhead, hlast ▸ hstored⟩
  range r hr := by
    rw [Shared.lastProcessed, hmemory]
    exact h.range r hr
  storing n hn := by
    rw [Shared.lastProcessed, hmemory]
    exact h.storing n hn
  untracked := h.untracked
  creating := h.creating
  created lo hi pair logs hc := by
    obtain ⟨hpair, hblock⟩ := h.created lo hi pair logs hc
    exact ⟨hpairs hpair, hblock⟩
  looping := hmemory ▸ h.looping
  indexing := hmemory ▸ h.indexing
  visited := hmemory ▸ h.visited

/-- The chain grows, and other awaits add tokens and rows. -/
theorem Sound.backend (h : Sound chain first w origin running) {backend : Backend}
    (hhead : w.backend.head ≤ backend.head) (hpairs : backend.db.pairs = w.backend.db.pairs)
    (hlast : backend.db.lastBlock = w.backend.db.lastBlock) :
    Sound chain first { w with backend } origin running := by
  have haddresses : backend.db.pairAddresses = w.backend.db.pairAddresses :=
    congrArg (List.map Pair.address) hpairs
  exact
    { first_le := h.first_le.trans hhead
      cursor := h.cursor.trans hhead
      processed := h.processed
      lastBlock := hlast.symm ▸ h.lastBlock
      tracked := haddresses.symm ▸ h.tracked
      taken := fun pair y hy => by
        obtain ⟨hsync, hstored, hin⟩ := h.taken pair y hy
        exact ⟨hsync, haddresses.symm ▸ hstored, hin⟩
      rows := hpairs.symm ▸ h.rows
      covered := h.covered
      fits := fun c hc =>
        (h.fits c hc).mono hhead hlast rfl (haddresses.symm ▸ List.Subset.refl _) }

/-- A row is stored for a pair that a callback is about to track. -/
theorem Sound.insertPair (h : Sound chain first w origin running) {pair : Pair}
    (hnew : pair.address ∉ w.backend.db.pairAddresses)
    (hadding : ∃ c ∈ running, pair.address ∈ c.adding) :
    Sound chain first { w with backend := { w.backend with
      db := { w.backend.db with pairs := w.backend.db.pairs ++ [pair] } } } origin running := by
  have haddresses : ∀ a, a ∈ (w.backend.db.pairs ++ [pair]).map Pair.address ↔
      a ∈ w.backend.db.pairAddresses ∨ a = pair.address := by
    intro a
    simp [Database.pairAddresses]
  exact
    { first_le := h.first_le
      cursor := h.cursor
      processed := h.processed
      lastBlock := h.lastBlock
      tracked := fun a ha => by
        rcases (haddresses a).mp ha with ha | rfl
        · exact h.tracked a ha
        · exact Or.inr hadding
      taken := fun a y hy => by
        obtain ⟨hsync, hstored, hin⟩ := h.taken a y hy
        exact ⟨hsync, (haddresses a).mpr (Or.inl hstored), hin⟩
      rows := fun row hrow y hy => by
        rcases List.mem_append.mp hrow with hrow | hrow
        · exact h.rows row hrow y hy
        · obtain rfl := List.mem_singleton.mp hrow
          exact absurd (h.taken _ y hy).2.1 hnew
      covered := h.covered
      fits := fun c hc => (h.fits c hc).mono le_rfl rfl rfl fun a ha =>
        (haddresses a).mpr (Or.inl ha) }

/-- The row of a pair is stored, unless another callback has stored it. -/
theorem Sound.upsert {lo hi : ℕ} {pair : Pair} {logs : List EventLog}
    (h : Sound chain first w origin (.creating lo hi pair logs :: others))
    (hrequest : request chain contracts (.pairUpsert pair) w = some w') :
    Sound chain first w' origin (.created lo hi pair.address logs :: others) := by
  have hstored : pair.address ∈ w'.backend.db.pairAddresses ∧
      Sound chain first w' origin (.creating lo hi pair logs :: others) := by
    rcases request_pairUpsert hrequest with ⟨hmem, rfl⟩ | ⟨hnew, rfl⟩
    · exact ⟨hmem, h⟩
    · exact ⟨by simp [Database.pairAddresses],
        h.insertPair hnew ⟨_, List.mem_cons_self, rfl⟩⟩
  obtain ⟨hmem, h'⟩ := hstored
  have hfits := h'.fits _ List.mem_cons_self
  refine h'.replace (fun a ha => Or.inr ha) (fun r hr => hr) nofun ?_
  refine hfits.next rfl rfl nofun nofun (List.Subset.refl _) nofun ?_ nofun nofun nofun
  intro lo' hi' pair' logs' hc
  obtain ⟨rfl, rfl, rfl, rfl⟩ := Callback.created.inj hc
  exact ⟨hmem, hfits.creating _ _ _ _ rfl⟩

end Kept

end EnergyChain.Indexer
