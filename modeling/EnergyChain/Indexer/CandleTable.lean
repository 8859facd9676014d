import EnergyChain.Indexer.PriceService
import EnergyChain.Foundations.Rollup
import Mathlib.Tactic

/-!
# The candles of a call

What the candle table holds under each key after `generateOHLCV` has stored its buckets,
and what the loop computes from the swap rows that the event indexer writes.
-/

namespace EnergyChain.Indexer

/-! ### Swap rows -/

/-- The row is one that `indexPairEvents` writes. -/
def Swap.Indexed (row : Swap) : Prop :=
  ∃ log parsed, swapRow row.pairAddr log = some parsed ∧ parsed row.timestamp = .swap row

/-- A token is paid out, as `swap` of a pair requires. -/
def Swap.Pays (row : Swap) : Prop := row.amount0Out ≠ "0" ∨ row.amount1Out ≠ "0"

variable (ethers : Ethers) {ms : ℕ} {row : Swap}

theorem toString_ne_empty (n : ℕ) : toString n ≠ "" := by
  intro h
  have hlist := congrArg String.toList h
  rw [Nat.toString_eq_repr, Nat.toList_repr] at hlist
  exact Nat.toDigits_ne_nil hlist

theorem Swap.Indexed.amounts (h : row.Indexed) : ∃ in0 in1 out0 out1 : ℕ,
    row.amount0In = toString in0 ∧ row.amount1In = toString in1 ∧
      row.amount0Out = toString out0 ∧ row.amount1Out = toString out1 := by
  obtain ⟨log, parsed, hrow, hparsed⟩ := h
  unfold swapRow at hrow
  split at hrow
  · next sender in0 in1 out0 out1 recipient _ =>
    obtain rfl := Option.some.inj hrow
    rw [← Row.swap.inj hparsed]
    exact ⟨in0, in1, out0, out1, rfl, rfl, rfl, rfl⟩
  · exact absurd hrow (by simp)

/-- The texts of the amounts paid out are never empty: those paid in are not read. -/
theorem tick_eq (ms : ℕ) {out0 out1 : ℕ} (h0 : row.amount0Out = toString out0)
    (h1 : row.amount1Out = toString out1) :
    tick ethers ms row = some
      { ts := row.timestamp / ms * ms
        price := if 0 < (out1 : ℚ) / 10 ^ 18 then
          (out0 : ℚ) / 10 ^ 18 / ((out1 : ℚ) / 10 ^ 18) else 0
        vol := max ((out0 : ℚ) / 10 ^ 18) ((out1 : ℚ) / 10 ^ 18) } := by
  have htext : ∀ (n : ℕ) (a b : String), orText (orText (toString n) a) b = toString n := by
    intro n a b
    rw [orText, orText, if_neg (toString_ne_empty n), if_neg (toString_ne_empty n)]
  rw [tick, h0, h1, htext, htext, ethers.formatEther_toString, ethers.formatEther_toString]
  rfl

theorem Swap.Indexed.isSome_tick (h : row.Indexed) (ms : ℕ) : (tick ethers ms row).isSome := by
  obtain ⟨_, _, out0, out1, _, _, h0, h1⟩ := h.amounts
  rw [tick_eq ethers ms h0 h1]
  rfl

variable {ethers} {t : Tick}

theorem tick_ts (h : tick ethers ms row = some t) : t.ts = row.timestamp / ms * ms := by
  simp only [tick, Option.bind_eq_bind, Option.bind_eq_some_iff, Option.pure_def,
    Option.some.injEq] at h
  obtain ⟨r0, _, r1, _, rfl⟩ := h
  rfl

theorem Swap.Indexed.vol_pos (h : row.Indexed) (hpays : row.Pays)
    (ht : tick ethers ms row = some t) : 0 < t.vol := by
  obtain ⟨_, _, out0, out1, _, _, h0, h1⟩ := h.amounts
  rw [tick_eq ethers ms h0 h1, Option.some.injEq] at ht
  subst ht
  have hpos : ∀ {n : ℕ} {text : String}, text = toString n → text ≠ "0" →
      0 < (n : ℚ) / 10 ^ 18 := by
    intro n text htext hne
    have hn : n ≠ 0 := by
      rintro rfl
      exact hne htext
    positivity
  rcases hpays with hpays | hpays
  · exact lt_max_of_lt_left (hpos h0 hpays)
  · exact lt_max_of_lt_right (hpos h1 hpays)

/-! ### Buckets -/

/-- The candle of a bucket after one more swap. -/
def Candle.extend : Option Candle → Tick → Option Candle
  | none, t => some (.first t)
  | some b, t => some (b.add t)

variable {buckets : List (ℕ × Candle)} {ts : ℕ}

theorem lookup_map_of_key (f : Candle → Candle) (k : ℕ) :
    (buckets.map fun (ts, b) => if ts = k then (ts, f b) else (ts, b)).lookup ts =
      if ts = k then (buckets.lookup ts).map f else buckets.lookup ts := by
  induction buckets with
  | nil => simp
  | cons entry rest ih =>
    obtain ⟨key, b⟩ := entry
    simp only [List.map_cons, List.lookup_cons]
    by_cases hkey : ts = key
    · subst hkey
      by_cases hk : ts = k <;> simp [hk]
    · have hother : (ts == key) = false := by simpa using hkey
      by_cases hk : key = k
      · subst hk
        simp only [if_true, List.lookup_cons, hother, ih]
      · simp only [hk, if_false, List.lookup_cons, hother, ih]

theorem lookup_addTick (t : Tick) (ts : ℕ) : (addTick buckets t).lookup ts =
    if t.ts = ts then Candle.extend (buckets.lookup ts) t else buckets.lookup ts := by
  unfold addTick
  split_ifs with hmem hts hts
  · subst hts
    rw [lookup_map_of_key (Candle.add · t), if_pos rfl]
    obtain ⟨⟨_, b⟩, hb, rfl⟩ := List.mem_map.1 hmem
    cases hlookup : buckets.lookup t.ts with
    | none => exact absurd (List.lookup_eq_none_iff.1 hlookup _ hb) (by simp)
    | some b => rfl
  · rw [lookup_map_of_key (Candle.add · t), if_neg (Ne.symm hts)]
  · subst hts
    have hnone : buckets.lookup t.ts = none := by
      refine List.lookup_eq_none_iff.2 fun entry hentry => ?_
      have hne : t.ts ≠ entry.1 := fun heq => hmem (heq ▸ List.mem_map_of_mem hentry)
      simpa using hne
    rw [List.lookup_append, hnone]
    simp [Candle.extend]
  · have hother : (ts == t.ts) = false := by simpa using Ne.symm hts
    rw [List.lookup_append]
    simp [List.lookup_cons, hother]

theorem lookup_foldl_addTick (ticks : List Tick) (ts : ℕ) :
    (ticks.foldl addTick buckets).lookup ts =
      (ticks.filter fun t => t.ts = ts).foldl Candle.extend (buckets.lookup ts) := by
  induction ticks generalizing buckets with
  | nil => rfl
  | cons t ticks ih =>
    rw [List.foldl_cons, ih, lookup_addTick, List.filter_cons]
    by_cases hts : t.ts = ts <;> simp [hts]

theorem nodup_addTick (h : (buckets.map Prod.fst).Nodup) (t : Tick) :
    ((addTick buckets t).map Prod.fst).Nodup := by
  unfold addTick
  split_ifs with hmem
  · have hkeys : (buckets.map fun (ts, b) => if ts = t.ts then (ts, b.add t) else (ts, b)).map
        Prod.fst = buckets.map Prod.fst := by
      rw [List.map_map]
      refine List.map_congr_left fun entry _ => ?_
      by_cases hts : entry.1 = t.ts <;> simp [hts]
    rwa [hkeys]
  · rw [List.map_append]
    exact h.append (by simp) (by simpa using hmem)

theorem nodup_foldl_addTick (ticks : List Tick) (h : (buckets.map Prod.fst).Nodup) :
    ((ticks.foldl addTick buckets).map Prod.fst).Nodup := by
  induction ticks generalizing buckets with
  | nil => exact h
  | cons t ticks ih => exact ih (nodup_addTick h t)

/-! ### The table -/

namespace PriceDatabase

variable {db : PriceDatabase} {pairAddr : Address} {interval : String}

theorem candleAt_ne_none : db.candleAt pairAddr interval ts ≠ none ↔
    ∃ row ∈ db.ohlcv, row.IsAt pairAddr interval ts := by
  simp [candleAt]

theorem isAt_update {row : OHLCV} (p : Prop) [Decidable p] (candle : Candle) :
    (if p then { row with toCandle := candle } else row).IsAt pairAddr interval ts ↔
      row.IsAt pairAddr interval ts := by
  split_ifs <;> rfl

theorem candleAt_upsert (timestamp : ℕ) (candle : Candle) :
    (db.upsert pairAddr interval timestamp candle).candleAt pairAddr interval ts =
      if ts = timestamp then some candle else db.candleAt pairAddr interval ts := by
  unfold upsert
  split_ifs with hmem hts hts
  · subst hts
    obtain ⟨row, hrow, hat⟩ := hmem
    cases hfind : db.ohlcv.find? fun row => row.IsAt pairAddr interval ts with
    | none => exact absurd hat (by simpa using List.find?_eq_none.1 hfind row hrow)
    | some found =>
      have hfound : found.IsAt pairAddr interval ts := by simpa using List.find?_some hfind
      simp only [candleAt, List.find?_map, Function.comp_def, isAt_update, hfind, Option.map_some,
        if_pos hfound]
  · simp only [candleAt, List.find?_map, Function.comp_def, isAt_update, Option.map_map]
    cases hfind : db.ohlcv.find? fun row => row.IsAt pairAddr interval ts with
    | none => rfl
    | some found =>
      have hfound : found.IsAt pairAddr interval ts := by simpa using List.find?_some hfind
      have hother : ¬ found.IsAt pairAddr interval timestamp :=
        fun hat => hts (hfound.2.2.symm.trans hat.2.2)
      rw [Option.map_some, if_neg hother]
      rfl
  · subst hts
    have hnone : db.ohlcv.find? (fun row => row.IsAt pairAddr interval ts) = none :=
      List.find?_eq_none.2 fun row hrow hat => hmem ⟨row, hrow, by simpa using hat⟩
    have hat : (OHLCV.mk candle pairAddr interval ts).IsAt pairAddr interval ts :=
      ⟨rfl, rfl, rfl⟩
    simp [candleAt, List.find?_append, hnone, hat]
  · simp [candleAt, List.find?_append, OHLCV.IsAt, Ne.symm hts]

theorem candleAt_foldl_upsert (h : (buckets.map Prod.fst).Nodup) :
    (buckets.foldl (fun db (ts, candle) => db.upsert pairAddr interval ts candle) db).candleAt
        pairAddr interval ts = (buckets.lookup ts).or (db.candleAt pairAddr interval ts) := by
  induction buckets generalizing db with
  | nil => rfl
  | cons entry rest ih =>
    obtain ⟨key, b⟩ := entry
    obtain ⟨hkey, hrest⟩ := List.nodup_cons.1 h
    rw [List.foldl_cons, ih hrest, candleAt_upsert, List.lookup_cons]
    by_cases hts : ts = key
    · subst hts
      have hnone : rest.lookup ts = none := by
        refine List.lookup_eq_none_iff.2 fun entry hentry => ?_
        have hne : ts ≠ entry.1 := by
          rintro rfl
          exact hkey (List.mem_map.2 ⟨entry, hentry, rfl⟩)
        simpa using hne
      simp [hnone]
    · have hother : (ts == key) = false := by simpa using hts
      simp [hts, hother]

theorem foldl_upsert_toDatabase :
    (buckets.foldl (fun db (ts, candle) => db.upsert pairAddr interval ts candle) db).toDatabase =
      db.toDatabase := by
  induction buckets generalizing db with
  | nil => rfl
  | cons entry rest ih =>
    rw [List.foldl_cons, ih]
    dsimp only [upsert]
    split_ifs <;> rfl

/-- The latest time stamp of a candle, zero if there is none. -/
def lastTimestamp (db : PriceDatabase) (pairAddr : Address) (interval : String) : ℕ :=
  ((db.lastCandle pairAddr interval).map OHLCV.timestamp).getD 0

theorem le_lastTimestamp (h : db.candleAt pairAddr interval ts ≠ none) :
    ts ≤ db.lastTimestamp pairAddr interval := by
  obtain ⟨row, hrow, rfl, rfl, rfl⟩ := candleAt_ne_none.1 h
  have hmem : row ∈ db.ohlcv.filter fun r =>
      r.pairAddr = row.pairAddr ∧ r.interval = row.interval := by simpa using hrow
  unfold lastTimestamp lastCandle
  cases hlast : (db.ohlcv.filter fun r =>
      r.pairAddr = row.pairAddr ∧ r.interval = row.interval).argmax OHLCV.timestamp with
  | none =>
    rw [List.argmax_eq_none.1 hlast] at hmem
    exact absurd hmem List.not_mem_nil
  | some last => exact List.le_of_mem_argmax hmem hlast

theorem lastTimestamp_mem : db.lastTimestamp pairAddr interval = 0 ∨
    db.candleAt pairAddr interval (db.lastTimestamp pairAddr interval) ≠ none := by
  unfold lastTimestamp
  cases hlast : db.lastCandle pairAddr interval with
  | none => exact Or.inl rfl
  | some last =>
    have hmem := List.mem_filter.1 (List.argmax_mem hlast)
    refine Or.inr (candleAt_ne_none.2 ⟨last, hmem.1, ?_, ?_, rfl⟩)
    · exact (of_decide_eq_true hmem.2).1
    · exact (of_decide_eq_true hmem.2).2

end PriceDatabase

/-! ### A call -/

theorem bucketMs_pos (interval : String) : 0 < bucketMs interval := by
  unfold bucketMs
  cases hlookup : intervalMs.lookup interval with
  | none => decide
  | some ms =>
    obtain ⟨front, back, hsplit, _⟩ := List.lookup_eq_some_iff.1 hlookup
    have hmem : (interval, ms) ∈ intervalMs := by simp [hsplit]
    have hpos : ∀ entry ∈ intervalMs, 0 < entry.2 := by decide
    exact hpos _ hmem

/-- Swaps in the buckets of an interval. -/
def roll (interval : String) : Rollup Swap where
  time := Swap.timestamp
  width := bucketMs interval
  width_pos := bucketMs_pos interval

variable (ethers) in
/-- The candle of the swaps of a bucket, none without swaps. -/
def entry (interval : String) (swaps : List Swap) : Option Candle :=
  (swaps.filterMap (tick ethers (bucketMs interval))).foldl Candle.extend none

variable {swaps : List Swap} {pairAddr : Address} {interval : String} {db : PriceDatabase}

theorem mapM_tick (h : ∀ s ∈ swaps, s.Indexed) :
    swaps.mapM (tick ethers ms) = some (swaps.filterMap (tick ethers ms)) := by
  induction swaps with
  | nil => rfl
  | cons s swaps ih =>
    obtain ⟨t, ht⟩ := Option.isSome_iff_exists.1
      ((h s List.mem_cons_self).isSome_tick ethers ms)
    rw [List.mapM_cons, ht, ih fun s' hs' => h s' (List.mem_cons_of_mem s hs'),
      List.filterMap_cons_some ht]
    rfl

theorem isSome_foldl_extend (ticks : List Tick) (b : Candle) :
    (ticks.foldl Candle.extend (some b)).isSome := by
  induction ticks generalizing b with
  | nil => rfl
  | cons t ticks ih => exact ih (b.add t)

theorem isSome_entry (h : ∀ s ∈ swaps, s.Indexed) (hne : swaps ≠ []) :
    (entry ethers interval swaps).isSome := by
  cases swaps with
  | nil => exact absurd rfl hne
  | cons s swaps =>
    obtain ⟨t, ht⟩ := Option.isSome_iff_exists.1
      ((h s List.mem_cons_self).isSome_tick ethers (bucketMs interval))
    rw [entry, List.filterMap_cons_some ht]
    exact isSome_foldl_extend _ _

theorem filter_ticks (b : ℕ) :
    (swaps.filterMap (tick ethers (bucketMs interval))).filter (fun t => t.ts = b) =
      ((roll interval).bucket swaps b).filterMap (tick ethers (bucketMs interval)) := by
  induction swaps with
  | nil => rfl
  | cons s swaps ih =>
    rw [Rollup.bucket, List.filter_cons, ← Rollup.bucket]
    cases ht : tick ethers (bucketMs interval) s with
    | none =>
      rw [List.filterMap_cons_none ht, ih]
      split_ifs
      · rw [List.filterMap_cons_none ht]
      · rfl
    | some t =>
      have hts : t.ts = (roll interval).start s := tick_ts ht
      rw [List.filterMap_cons_some ht, List.filter_cons, hts, ih]
      split_ifs
      · rw [List.filterMap_cons_some ht]
      · rfl

/-- A call succeeds on indexed swaps, and replaces the candles of the buckets that the
swaps after the last candle fall in. -/
theorem generateOHLCV_spec (hpair : pairAddr ∈ db.pairAddresses)
    (h : ∀ s ∈ db.swapsAfter pairAddr (db.lastTimestamp pairAddr interval), s.Indexed) :
    ∃ db', generateOHLCV ethers db pairAddr interval = some db' ∧
      db'.toDatabase = db.toDatabase ∧
      ∀ ts, db'.candleAt pairAddr interval ts =
        (entry ethers interval ((roll interval).bucket
          (db.swapsAfter pairAddr (db.lastTimestamp pairAddr interval)) ts)).or
          (db.candleAt pairAddr interval ts) := by
  have hticks : (db.swapsAfter pairAddr
      (((db.lastCandle pairAddr interval).map OHLCV.timestamp).getD 0)).mapM
        (tick ethers (bucketMs interval)) = some _ := mapM_tick h
  unfold generateOHLCV
  rw [if_neg (not_not.2 hpair)]
  dsimp only
  rw [hticks]
  split_ifs with hempty
  · rw [PriceDatabase.lastTimestamp, List.isEmpty_iff.1 hempty]
    exact ⟨db, rfl, rfl, fun ts => rfl⟩
  · refine ⟨_, rfl, PriceDatabase.foldl_upsert_toDatabase, fun ts => ?_⟩
    rw [PriceDatabase.candleAt_foldl_upsert (nodup_foldl_addTick _ (by simp)),
      lookup_foldl_addTick, filter_ticks]
    rfl

theorem mem_swapsAfter {s : Swap} {since : ℕ} :
    s ∈ db.swapsAfter pairAddr since ↔
      s ∈ db.swaps ∧ s.pairAddr = pairAddr ∧ since < s.timestamp := by
  rw [PriceDatabase.swapsAfter, List.mem_insertionSort, List.mem_filter, decide_eq_true_eq]

theorem generateOHLCV_first (hpair : pairAddr ∈ db.pairAddresses) (hcandles : db.ohlcv = [])
    (h : ∀ s ∈ db.swaps, s.pairAddr = pairAddr → s.Indexed) :
    ∃ db', generateOHLCV ethers db pairAddr interval = some db' ∧
      db'.toDatabase = db.toDatabase ∧
      ∀ ts, db'.candleAt pairAddr interval ts =
        entry ethers interval ((roll interval).bucket (db.swapsAfter pairAddr 0) ts) := by
  have hlast : db.lastTimestamp pairAddr interval = 0 := by
    simp [PriceDatabase.lastTimestamp, PriceDatabase.lastCandle, hcandles]
  have hindexed : ∀ s ∈ db.swapsAfter pairAddr (db.lastTimestamp pairAddr interval),
      s.Indexed := by
    intro s hs
    obtain ⟨hs, hsPair, -⟩ := mem_swapsAfter.1 hs
    exact h s hs hsPair
  obtain ⟨db', hcall, hrest, hcandleAt⟩ := generateOHLCV_spec hpair hindexed
  refine ⟨db', hcall, hrest, fun ts => ?_⟩
  have hnone : db.candleAt pairAddr interval ts = none := by
    simp [PriceDatabase.candleAt, hcandles]
  rw [hcandleAt, hlast, hnone, Option.or_none]

/-! ### A pair with swaps -/

def tradedPair : Address := ⟨200⟩

def tradedDatabase (swaps : List Swap) : PriceDatabase where
  toDatabase :=
    { Database.empty with
      pairs := [{ address := tradedPair, token0Addr := ⟨10⟩, token1Addr := ⟨11⟩ }]
      swaps }
  ohlcv := []

def sampleSwap (timestamp amount0In amount1In amount0Out amount1Out : ℕ) : Swap where
  log := ⟨timestamp / 1000, 0⟩
  pairAddr := tradedPair
  txHash := 3
  sender := ⟨1⟩
  recipient := ⟨1⟩
  amount0In := toString amount0In
  amount1In := toString amount1In
  amount0Out := toString amount0Out
  amount1Out := toString amount1Out
  timestamp
  blockNumber := timestamp / 1000

theorem sampleSwap_indexed (timestamp amount0In amount1In amount0Out amount1Out : ℕ) :
    (sampleSwap timestamp amount0In amount1In amount0Out amount1Out).Indexed :=
  ⟨{ address := tradedPair, transactionHash := 3
     event := .swap ⟨1⟩ amount0In amount1In amount0Out amount1Out ⟨1⟩
     ref := ⟨timestamp / 1000, 0⟩ }, _, rfl, rfl⟩

end EnergyChain.Indexer
