import EnergyChain.Indexer.CandleTable

/-!
# Incremental candles

Swaps are inserted and candles generated in any order. The candle table is a roll-up of
the pair's swaps: each call of `generateOHLCV` is a refresh. So the candles of a last call
are those of one aggregation over all swaps exactly if the calls before it are timely.
-/

namespace EnergyChain.Indexer

/-! ### Sequences of insertions and calls -/

/-- The insertion of a swap of any pair, or a call for a fixed pair and interval. -/
inductive Action where
  | insert (row : Swap)
  | generate
deriving DecidableEq

/-- What an action is to the roll-up of a pair. -/
def Action.toOp (pairAddr : Address) : Action → Option (Rollup.Op Swap)
  | .insert row => if row.pairAddr = pairAddr then some (.insert row) else none
  | .generate => some .refresh

def opsOf (pairAddr : Address) (actions : List Action) : List (Rollup.Op Swap) :=
  actions.filterMap (Action.toOp pairAddr)

def swapsOf (pairAddr : Address) (actions : List Action) : List Swap :=
  Rollup.inserted (opsOf pairAddr actions)

section Perform

variable (ethers : Ethers) (pairAddr : Address) (interval : String)

def perform (db : PriceDatabase) : Action → Option PriceDatabase
  | .insert row => some (db.createSwap row)
  | .generate => generateOHLCV ethers db pairAddr interval

def performAll (db : PriceDatabase) (actions : List Action) : Option PriceDatabase :=
  actions.foldlM (perform ethers pairAddr interval) db

/-- The stored candles are those of the same swaps aggregated once, without candles. -/
def SameCandles (db full : PriceDatabase) : Prop :=
  ∀ ts, db.candleAt pairAddr interval ts = full.candleAt pairAddr interval ts

end Perform

/-! ### The table as a roll-up -/

/-- The swaps of the pair are the items of the roll-up, and its candles are those of the
items that the entries were computed from. -/
structure Refines (ethers : Ethers) (pairAddr : Address) (interval : String)
    (db : PriceDatabase) (t : Rollup.Table Swap) : Prop where
  stored : pairAddr ∈ db.pairAddresses
  rows : db.swaps.filter (fun s => s.pairAddr = pairAddr) = t.items
  indexed : ∀ s ∈ t.items, s.Indexed
  sourced : ∀ b, ∀ s ∈ t.sources b, s.Indexed
  candles : ∀ ts, db.candleAt pairAddr interval ts = entry ethers interval (t.sources ts)

namespace Refines

variable {ethers : Ethers} {pairAddr : Address} {interval : String} {db : PriceDatabase}
  {t : Rollup.Table Swap}

theorem candleAt_ne_none (h : Refines ethers pairAddr interval db t) {b : ℕ} :
    db.candleAt pairAddr interval b ≠ none ↔ t.sources b ≠ [] := by
  rw [h.candles]
  constructor
  · intro hentry hnil
    exact hentry (by rw [hnil]; rfl)
  · intro hne hnone
    have hsome : (entry ethers interval (t.sources b)).isSome := isSome_entry (h.sourced b) hne
    rw [hnone] at hsome
    exact Bool.false_ne_true hsome

theorem since (h : Refines ethers pairAddr interval db t) :
    db.lastTimestamp pairAddr interval = t.since :=
  Rollup.latest_unique PriceDatabase.le_lastTimestamp PriceDatabase.lastTimestamp_mem
    (fun hb => t.le_since (h.candleAt_ne_none.1 hb)) (t.since_mem.imp id h.candleAt_ne_none.2)

theorem swapsAfter (h : Refines ethers pairAddr interval db t)
    (hsorted : (roll interval).Sorted t.items) :
    db.swapsAfter pairAddr (db.lastTimestamp pairAddr interval) = t.fresh (roll interval) := by
  have hread : (db.swaps.filter fun s => s.pairAddr = pairAddr ∧
      db.lastTimestamp pairAddr interval < s.timestamp) = t.fresh (roll interval) := by
    rw [Rollup.Table.fresh, Rollup.after, ← h.rows, List.filter_filter, h.since]
    refine List.filter_congr fun s _ => ?_
    rw [Bool.decide_and, Bool.and_comm]
    rfl
  rw [PriceDatabase.swapsAfter, hread]
  exact (List.Pairwise.filter (fun s => t.since < s.timestamp) hsorted).insertionSort_eq

theorem createSwap (h : Refines ethers pairAddr interval db t) {row : Swap}
    (hrow : row.pairAddr = pairAddr) (hindexed : row.Indexed) :
    Refines ethers pairAddr interval (db.createSwap row) (t.insert row) := by
  have hcreate : db.createSwap row =
      { db with toDatabase := (Row.swap row).insert db.toDatabase } :=
    if_pos (hrow ▸ h.stored)
  rw [hcreate]
  refine ⟨h.stored, ?_, ?_, h.sourced, h.candles⟩
  · have hitems : (t.insert row).items = t.items ++ [row] := by
      simp [Rollup.Table.insert, Rollup.Table.items]
    rw [hitems, ← h.rows]
    simp [Row.insert, List.filter_append, hrow]
  · intro s hs
    rw [Rollup.Table.insert, Rollup.Table.items, ← List.append_assoc] at hs
    rcases List.mem_append.1 hs with hs | hs
    · exact h.indexed s hs
    · rwa [List.mem_singleton.1 hs]

theorem createSwap_other (h : Refines ethers pairAddr interval db t) {row : Swap}
    (hrow : row.pairAddr ≠ pairAddr) :
    Refines ethers pairAddr interval (db.createSwap row) t := by
  unfold PriceDatabase.createSwap
  split_ifs
  · refine ⟨h.stored, ?_, h.indexed, h.sourced, h.candles⟩
    rw [← h.rows]
    simp [Row.insert, List.filter_append, hrow]
  · exact h

theorem generateOHLCV (h : Refines ethers pairAddr interval db t)
    (hsorted : (roll interval).Sorted t.items) :
    ∃ db', generateOHLCV ethers db pairAddr interval = some db' ∧
      Refines ethers pairAddr interval db' (t.refresh (roll interval)) := by
  have hfresh := h.swapsAfter hsorted
  have hindexed : ∀ s ∈ t.fresh (roll interval), s.Indexed :=
    fun s hs => h.indexed s (Rollup.mem_after.1 hs).1
  obtain ⟨db', hcall, hrest, hcandles⟩ := generateOHLCV_spec h.stored (by rwa [hfresh])
  refine ⟨db', hcall, ?_, ?_, ?_, fun b s hs => ?_, fun ts => ?_⟩
  · rw [hrest]
    exact h.stored
  · rw [hrest, h.rows]
    simp [Rollup.Table.refresh, Rollup.Table.items]
  · simpa [Rollup.Table.refresh, Rollup.Table.items] using h.indexed
  · by_cases hnil : (roll interval).bucket (t.fresh (roll interval)) b = []
    · rw [Rollup.Table.refresh_sources_of_nil hnil] at hs
      exact h.sourced b s hs
    · rw [Rollup.Table.refresh_sources_of_ne_nil hnil] at hs
      exact hindexed s (Rollup.mem_bucket.1 hs).1
  · rw [hcandles, hfresh]
    by_cases hnil : (roll interval).bucket (t.fresh (roll interval)) ts = []
    · rw [Rollup.Table.refresh_sources_of_nil hnil, hnil, ← h.candles]
      rfl
    · have hsome : (entry ethers interval
          ((roll interval).bucket (t.fresh (roll interval)) ts)).isSome :=
        isSome_entry (fun s hs => hindexed s (Rollup.mem_bucket.1 hs).1) hnil
      obtain ⟨candle, hcandle⟩ := Option.isSome_iff_exists.1 hsome
      rw [Rollup.Table.refresh_sources_of_ne_nil hnil, hcandle]
      rfl

theorem initial (hpair : pairAddr ∈ db.pairAddresses) (hswaps : db.swaps = [])
    (hcandles : db.ohlcv = []) : Refines ethers pairAddr interval db .empty where
  stored := hpair
  rows := by rw [hswaps]; rfl
  indexed _ hs := absurd hs List.not_mem_nil
  sourced _ _ hs := absurd hs List.not_mem_nil
  candles ts := by rw [PriceDatabase.candleAt, hcandles]; rfl

theorem withoutCandles (h : Refines ethers pairAddr interval db t) :
    Refines ethers pairAddr interval { db with ohlcv := [] }
      ((roll interval).run (t.items.map .insert)) := by
  have hitems : ((roll interval).run (t.items.map .insert)).items = t.items := by
    rw [Rollup.items_run, Rollup.inserted_map_insert]
  refine ⟨h.stored, ?_, ?_, fun b s hs => ?_, fun ts => ?_⟩
  · rw [hitems]
    exact h.rows
  · rw [hitems]
    exact h.indexed
  · rw [Rollup.sources_run_map_insert] at hs
    exact absurd hs List.not_mem_nil
  · rw [Rollup.sources_run_map_insert]
    rfl

/-- Sequences of actions are runs of the roll-up. -/
theorem performAll {ops : List (Rollup.Op Swap)} {actions : List Action}
    (h : Refines ethers pairAddr interval db ((roll interval).run ops))
    (hindexed : ∀ row ∈ swapsOf pairAddr actions, row.Indexed)
    (hsorted : (roll interval).Sorted (Rollup.inserted (ops ++ opsOf pairAddr actions))) :
    ∃ db', performAll ethers pairAddr interval db actions = some db' ∧
      Refines ethers pairAddr interval db'
        ((roll interval).run (ops ++ opsOf pairAddr actions)) := by
  induction actions generalizing db ops with
  | nil => exact ⟨db, rfl, by simpa [opsOf] using h⟩
  | cons action actions ih =>
    rw [opsOf, List.filterMap_cons] at hsorted ⊢
    cases action with
    | insert row =>
      by_cases hrow : row.pairAddr = pairAddr
      · simp only [Action.toOp, if_pos hrow] at hsorted ⊢
        have hmem : row.Indexed := by
          refine hindexed row ?_
          simp [swapsOf, opsOf, Action.toOp, hrow]
        have hnext := h.createSwap hrow hmem
        rw [← Rollup.run_append_insert] at hnext
        rw [List.append_cons] at hsorted ⊢
        refine ih hnext (fun row' hrow' => hindexed row' ?_) hsorted
        rw [swapsOf, opsOf, List.filterMap_cons]
        simp only [Action.toOp, if_pos hrow]
        exact List.mem_cons_of_mem row hrow'
      · simp only [Action.toOp, if_neg hrow] at hsorted ⊢
        refine ih (h.createSwap_other hrow) (fun row' hrow' => hindexed row' ?_) hsorted
        rw [swapsOf, opsOf, List.filterMap_cons]
        simp only [Action.toOp, if_neg hrow]
        exact hrow'
    | generate =>
      simp only [Action.toOp] at hsorted ⊢
      have hitems : (roll interval).Sorted ((roll interval).run ops).items := by
        rw [Rollup.items_run]
        rw [Rollup.inserted_append] at hsorted
        exact (List.pairwise_append.1 hsorted).1
      obtain ⟨db', hcall, hnext⟩ := h.generateOHLCV hitems
      rw [← Rollup.run_append_refresh] at hnext
      rw [List.append_cons] at hsorted ⊢
      obtain ⟨db'', hperform, hrefines⟩ := ih hnext hindexed hsorted
      refine ⟨db'', ?_, hrefines⟩
      rw [Indexer.performAll, List.foldlM_cons, perform, hcall]
      exact hperform

end Refines

/-! ### The volume tells which swaps a candle is missing -/

section Volume

variable {ethers : Ethers} {interval : String}

variable (ethers interval) in
/-- What a swap adds to the volume of its bucket. -/
def volumeOf (s : Swap) : ℚ := ((tick ethers (bucketMs interval) s).map Tick.vol).getD 0

theorem volume_foldl_extend (ticks : List Tick) (b : Candle) :
    ∃ c, ticks.foldl Candle.extend (some b) = some c ∧
      c.volume = b.volume + (ticks.map Tick.vol).sum := by
  induction ticks generalizing b with
  | nil => exact ⟨b, rfl, by simp⟩
  | cons t ticks ih =>
    obtain ⟨c, hc, hvolume⟩ := ih (b.add t)
    refine ⟨c, hc, ?_⟩
    rw [hvolume, List.map_cons, List.sum_cons, ← add_assoc]
    rfl

theorem volume_entry (swaps : List Swap) :
    ((entry ethers interval swaps).map Candle.volume).getD 0 =
      (swaps.map (volumeOf ethers interval)).sum := by
  have hsum : (swaps.map (volumeOf ethers interval)).sum =
      ((swaps.filterMap (tick ethers (bucketMs interval))).map Tick.vol).sum := by
    induction swaps with
    | nil => rfl
    | cons s swaps ih =>
      rw [List.map_cons, List.sum_cons, ih, volumeOf]
      cases ht : tick ethers (bucketMs interval) s with
      | none => simp [ht]
      | some t => simp [ht]
  rw [hsum, entry]
  cases swaps.filterMap (tick ethers (bucketMs interval)) with
  | nil => rfl
  | cons t ticks =>
    obtain ⟨c, hc, hvolume⟩ := volume_foldl_extend ticks (.first t)
    rw [List.foldl_cons, Candle.extend, hc, List.map_cons, List.sum_cons]
    exact hvolume

theorem volumeOf_pos {s : Swap} (hindexed : s.Indexed) (hpays : s.Pays) :
    0 < volumeOf ethers interval s := by
  obtain ⟨t, ht⟩ := Option.isSome_iff_exists.1 (hindexed.isSome_tick ethers (bucketMs interval))
  rw [volumeOf, ht]
  exact hindexed.vol_pos hpays ht

theorem eq_of_sublist_of_sum_eq {α : Type*} {f : α → ℚ} {l l' : List α} (h : l.Sublist l')
    (hpos : ∀ a ∈ l', 0 < f a) (hsum : (l.map f).sum = (l'.map f).sum) : l = l' := by
  induction h with
  | slnil => rfl
  | @cons l l' a h ih =>
    have hle : (l.map f).sum ≤ (l'.map f).sum := by
      refine (h.map f).sum_le_sum fun b hb => ?_
      obtain ⟨a', ha', rfl⟩ := List.mem_map.1 hb
      exact (hpos a' (List.mem_cons_of_mem a ha')).le
    have ha := hpos a List.mem_cons_self
    rw [List.map_cons, List.sum_cons] at hsum
    linarith
  | @cons_cons l l' a h ih =>
    rw [List.map_cons, List.map_cons, List.sum_cons, List.sum_cons, add_right_inj] at hsum
    rw [ih (fun b hb => hpos b (List.mem_cons_of_mem a hb)) hsum]

/-- Swaps that pay something out cannot be left out unnoticed. -/
theorem eq_of_entry_eq {swaps swaps' : List Swap} (h : swaps.Sublist swaps')
    (hindexed : ∀ s ∈ swaps', s.Indexed) (hpays : ∀ s ∈ swaps', s.Pays)
    (heq : entry ethers interval swaps = entry ethers interval swaps') : swaps = swaps' := by
  refine eq_of_sublist_of_sum_eq h (f := volumeOf ethers interval)
    (fun s hs => volumeOf_pos (hindexed s hs) (hpays s hs)) ?_
  rw [← volume_entry, ← volume_entry, heq]

end Volume

/-! ### The candles of a last call -/

section LastCall

variable {ethers : Ethers} {pairAddr : Address} {interval : String} {db last full : PriceDatabase}
  {ops : List (Rollup.Op Swap)} {t : Rollup.Table Swap}

theorem opsOf_append_generate (actions : List Action) :
    opsOf pairAddr (actions ++ [.generate]) = opsOf pairAddr actions ++ [.refresh] := by
  simp [opsOf, Action.toOp]

theorem swapsOf_append_generate (actions : List Action) :
    swapsOf pairAddr (actions ++ [.generate]) = swapsOf pairAddr actions := by
  simp [swapsOf, opsOf_append_generate]

theorem Refines.performAll_generate
    (h : Refines ethers pairAddr interval db ((roll interval).run [])) {actions : List Action}
    (hindexed : ∀ row ∈ swapsOf pairAddr actions, row.Indexed)
    (hsorted : (roll interval).Sorted (swapsOf pairAddr actions)) :
    ∃ last, Indexer.performAll ethers pairAddr interval db (actions ++ [.generate]) = some last ∧
      Refines ethers pairAddr interval last
        ((roll interval).run (opsOf pairAddr actions ++ [.refresh])) := by
  rw [← opsOf_append_generate]
  refine h.performAll (by rwa [swapsOf_append_generate]) ?_
  rw [List.nil_append, ← swapsOf, swapsOf_append_generate]
  exact hsorted

/-- One aggregation is a refresh of the roll-up that was only filled. -/
theorem Refines.generate_once (h : Refines ethers pairAddr interval last t)
    (hsorted : (roll interval).Sorted t.items) :
    ∃ full, Indexer.generateOHLCV ethers { last with ohlcv := [] } pairAddr interval = some full ∧
      Refines ethers pairAddr interval full
        ((roll interval).run (t.items.map .insert ++ [.refresh])) := by
  rw [Rollup.run_append_refresh]
  refine h.withoutCandles.generateOHLCV ?_
  rwa [Rollup.items_run, Rollup.inserted_map_insert]

/-- The candles after a last refresh and those of one aggregation, bucket by bucket. -/
theorem sameCandles_iff (hsorted : (roll interval).Sorted (Rollup.inserted ops))
    (hlast : Refines ethers pairAddr interval last ((roll interval).run (ops ++ [.refresh])))
    (hfull : Refines ethers pairAddr interval full
      ((roll interval).run ((Rollup.inserted ops).map .insert ++ [.refresh]))) :
    SameCandles pairAddr interval last full ↔ ∀ ts,
      entry ethers interval (((roll interval).run (ops ++ [.refresh])).sources ts) =
      entry ethers interval
        ((roll interval).bucket ((roll interval).after 0 (Rollup.inserted ops)) ts) := by
  refine forall_congr' fun ts => ?_
  rw [hlast.candles, hfull.candles, Rollup.exact_once hsorted ts,
    Rollup.processed_run_append_refresh, Rollup.inserted_map_insert]

end LastCall

/-- After a last call the candles are those of one aggregation over all swaps of the pair if
the calls before it were timely, and, as each swap pays something out, only then. -/
theorem incremental_candles_iff_timely (ethers : Ethers) (pairAddr : Address) (interval : String)
    {db : PriceDatabase} (hpair : pairAddr ∈ db.pairAddresses) (hswaps : db.swaps = [])
    (hcandles : db.ohlcv = []) {actions : List Action}
    (hindexed : ∀ row ∈ swapsOf pairAddr actions, row.Indexed)
    (hsorted : (swapsOf pairAddr actions).Pairwise fun s s' => s.timestamp ≤ s'.timestamp) :
    ∃ last full, performAll ethers pairAddr interval db (actions ++ [.generate]) = some last ∧
      generateOHLCV ethers { last with ohlcv := [] } pairAddr interval = some full ∧
      ((roll interval).Timely (opsOf pairAddr actions) →
        SameCandles pairAddr interval last full) ∧
      ((∀ row ∈ swapsOf pairAddr actions, row.Pays) →
        (SameCandles pairAddr interval last full ↔
          (roll interval).Timely (opsOf pairAddr actions))) := by
  have hsorted : (roll interval).Sorted (swapsOf pairAddr actions) := hsorted
  obtain ⟨last, hlast, hrefines⟩ :=
    (Refines.initial hpair hswaps hcandles).performAll_generate hindexed hsorted
  have hitems : ((roll interval).run (opsOf pairAddr actions ++ [.refresh])).items =
      swapsOf pairAddr actions := by
    rw [Rollup.items_run, ← opsOf_append_generate, ← swapsOf, swapsOf_append_generate]
  obtain ⟨full, hfull, honce⟩ := hrefines.generate_once (by rwa [hitems])
  rw [hitems] at honce
  have hsame := sameCandles_iff hsorted hrefines honce
  have hexact (htimely : (roll interval).Timely (opsOf pairAddr actions)) :
      SameCandles pairAddr interval last full := by
    have hrun := (htimely.exact hsorted).run_refresh hsorted htimely
    refine hsame.2 fun ts => ?_
    rw [hrun ts, Rollup.processed_run_append_refresh]
  refine ⟨last, full, hlast, hfull, hexact, fun hpays => ⟨fun h => ?_, hexact⟩⟩
  apply Rollup.timely_of_exact hsorted
  intro ts
  rw [Rollup.processed_run_append_refresh]
  have hmem : ∀ s ∈ (roll interval).bucket ((roll interval).after 0 (swapsOf pairAddr actions)) ts,
      s ∈ swapsOf pairAddr actions :=
    fun s hs => (Rollup.mem_after.1 (Rollup.mem_bucket.1 hs).1).1
  refine eq_of_entry_eq ?_ (fun s hs => hindexed s (hmem s hs)) (fun s hs => hpays s (hmem s hs))
    (hsame.1 h ts)
  have hsublist : (((roll interval).run (opsOf pairAddr actions ++ [.refresh])).sources ts).Sublist
      _ := Rollup.sources_run_sublist
  rwa [Rollup.processed_run_append_refresh] at hsublist

/-- Two swaps of a bucket with a call between them, none on the start of the bucket. -/
theorem incremental_candles_iff_timely_sample :
    ∃ last full, performAll .decimal tradedPair "1m" (tradedDatabase [])
        [.insert (sampleSwap 61000 10 0 0 9), .generate, .insert (sampleSwap 90000 0 10 9 0),
          .generate] = some last ∧
      generateOHLCV .decimal { last with ohlcv := [] } tradedPair "1m" = some full ∧
      SameCandles tradedPair "1m" last full := by
  have hindexed : ∀ row ∈ swapsOf tradedPair [.insert (sampleSwap 61000 10 0 0 9), .generate,
      .insert (sampleSwap 90000 0 10 9 0)], row.Indexed := by
    intro row hrow
    obtain rfl | rfl : row = sampleSwap 61000 10 0 0 9 ∨ row = sampleSwap 90000 0 10 9 0 := by
      simpa [swapsOf, opsOf, Action.toOp, sampleSwap] using hrow
    · exact sampleSwap_indexed ..
    · exact sampleSwap_indexed ..
  obtain ⟨last, full, hlast, hfull, hsame, -⟩ :=
    incremental_candles_iff_timely .decimal tradedPair "1m"
      (show tradedPair ∈ (tradedDatabase []).pairAddresses by decide) rfl rfl hindexed
      (by decide +kernel)
  exact ⟨last, full, hlast, hfull, hsame (Rollup.timely_of_off_start (by decide +kernel))⟩

/-- Two swaps of a bucket with a call between them, the first on the start of the bucket. -/
def boundaryActions : List Action :=
  [.insert (sampleSwap 60000 10 0 0 9), .generate, .insert (sampleSwap 90000 0 10 9 0)]

/-- The first swap is lost when the candle is computed again. -/
theorem incremental_candles_lose_boundary_swap :
    (∀ row ∈ swapsOf tradedPair boundaryActions, row.Indexed) ∧
      ((swapsOf tradedPair boundaryActions).Pairwise fun s s' => s.timestamp ≤ s'.timestamp) ∧
      ∃ last full, performAll .decimal tradedPair "1m" (tradedDatabase [])
          (boundaryActions ++ [.generate]) = some last ∧
        generateOHLCV .decimal { last with ohlcv := [] } tradedPair "1m" = some full ∧
        ¬ SameCandles tradedPair "1m" last full := by
  refine ⟨?_, by decide +kernel, ?_⟩
  · intro row hrow
    obtain rfl | rfl : row = sampleSwap 60000 10 0 0 9 ∨ row = sampleSwap 90000 0 10 9 0 := by
      simpa [boundaryActions, swapsOf, opsOf, Action.toOp, sampleSwap] using hrow
    · exact sampleSwap_indexed ..
    · exact sampleSwap_indexed ..
  have hvolumes : ((performAll .decimal tradedPair "1m" (tradedDatabase [])
      (boundaryActions ++ [.generate])).bind fun last =>
        (generateOHLCV .decimal { last with ohlcv := [] } tradedPair "1m").map fun full =>
          ((last.candleAt tradedPair "1m" 60000).map Candle.volume,
            (full.candleAt tradedPair "1m" 60000).map Candle.volume)) =
      some (some (9 / 10 ^ 18), some (18 / 10 ^ 18)) := by
    decide +kernel
  obtain ⟨last, hlast, hmap⟩ := Option.bind_eq_some_iff.1 hvolumes
  obtain ⟨full, hfull, heq⟩ := Option.map_eq_some_iff.1 hmap
  refine ⟨last, full, hlast, hfull, fun hsame => ?_⟩
  rw [hsame 60000, Prod.mk.injEq] at heq
  exact absurd (heq.1.symm.trans heq.2) (by decide +kernel)

end EnergyChain.Indexer
