import EnergyChain.Indexer.Candles

/-!
# The prices of candles

The price of a swap is the ratio of the amounts of the two tokens that it moves, one in and
one out. `generateOHLCV` falls back to the amount paid in where none is paid out, but the
rows hold the text of the amount zero there, which is not empty: the price it computes of a
swap with one input and one output is zero.
-/

namespace EnergyChain.Indexer

/-! ### What a swap moves -/

/-- The number that a decimal text denotes. -/
def decimalValue (text : String) : ℕ := Nat.ofDigitChars 10 text.toList 0

@[simp] theorem decimalValue_toString (n : ℕ) : decimalValue (toString n) = n := by
  rw [decimalValue, Nat.toString_eq_repr, Nat.toList_repr, Nat.ofDigitChars_ten_toDigits]

namespace Swap

variable (row : Swap)

/-- One token is paid in and the other one out. -/
def OneWay : Prop :=
  (0 < decimalValue row.amount0In ∧ decimalValue row.amount1In = 0 ∧
      decimalValue row.amount0Out = 0 ∧ 0 < decimalValue row.amount1Out) ∨
    (decimalValue row.amount0In = 0 ∧ 0 < decimalValue row.amount1In ∧
      0 < decimalValue row.amount0Out ∧ decimalValue row.amount1Out = 0)

instance : Decidable row.OneWay := inferInstanceAs (Decidable (_ ∨ _))

/-- The amount of token0 moved for each unit of token1. -/
def ratio : ℚ :=
  ((decimalValue row.amount0In + decimalValue row.amount0Out : ℕ) : ℚ) /
    (decimalValue row.amount1In + decimalValue row.amount1Out : ℕ)

variable {row}

theorem OneWay.ratio_pos (h : row.OneWay) : 0 < row.ratio := by
  unfold OneWay at h
  refine div_pos (Nat.cast_pos.2 ?_) (Nat.cast_pos.2 ?_)
  · omega
  · omega

theorem OneWay.price_eq_zero (h : row.OneWay) (hindexed : row.Indexed) {ethers : Ethers} {ms : ℕ}
    {t : Tick} (ht : tick ethers ms row = some t) : t.price = 0 := by
  obtain ⟨in0, in1, out0, out1, hin0, hin1, hout0, hout1⟩ := hindexed.amounts
  rw [tick_eq ethers ms hout0 hout1, Option.some.injEq] at ht
  rw [OneWay, hin0, hin1, hout0, hout1] at h
  simp only [decimalValue_toString] at h
  subst ht
  rcases h with ⟨_, _, rfl, _⟩ | ⟨_, _, _, rfl⟩
  · simp
  · simp

end Swap

/-! ### The candles of a call -/

/-- The swaps in a bucket of an interval, earliest first. -/
def swapsIn (db : PriceDatabase) (interval : String) (ts : ℕ) : List Swap :=
  (roll interval).bucket (db.swaps.insertionSort fun s s' => s.timestamp ≤ s'.timestamp) ts

/-- Each candle has the first, the highest, the lowest and the last ratio of its bucket. -/
def RealPrices (pairAddr : Address) (interval : String) (db : PriceDatabase) : Prop :=
  ∀ row ∈ db.ohlcv, row.pairAddr = pairAddr → row.interval = interval →
    ((swapsIn db interval row.timestamp).map Swap.ratio).head? = some row.openPrice ∧
    ((swapsIn db interval row.timestamp).map Swap.ratio).max? = some row.high ∧
    ((swapsIn db interval row.timestamp).map Swap.ratio).min? = some row.low ∧
    ((swapsIn db interval row.timestamp).map Swap.ratio).getLast? = some row.close

variable {ethers : Ethers} {pairAddr : Address} {interval : String} {db : PriceDatabase}

theorem openPrice_foldl_extend (ticks : List Tick) (b : Candle) :
    ∃ c, ticks.foldl Candle.extend (some b) = some c ∧ c.openPrice = b.openPrice := by
  induction ticks generalizing b with
  | nil => exact ⟨b, rfl, rfl⟩
  | cons t ticks ih => exact ih (b.add t)

theorem openPrice_entry {swaps : List Swap} (hindexed : ∀ s ∈ swaps, s.Indexed)
    (honeWay : ∀ s ∈ swaps, s.OneWay) (hne : swaps ≠ []) :
    ∃ c, entry ethers interval swaps = some c ∧ c.openPrice = 0 := by
  cases swaps with
  | nil => exact absurd rfl hne
  | cons s swaps =>
    have hs := hindexed s List.mem_cons_self
    obtain ⟨t, ht⟩ := Option.isSome_iff_exists.1 (hs.isSome_tick ethers (bucketMs interval))
    obtain ⟨c, hc, hopen⟩ := openPrice_foldl_extend
      (swaps.filterMap (tick ethers (bucketMs interval))) (.first t)
    refine ⟨c, ?_, hopen.trans ((honeWay s List.mem_cons_self).price_eq_zero hs ht)⟩
    rw [entry, List.filterMap_cons_some ht]
    exact hc

/-- For swaps with one input and one output the candles of a first call have real prices only
if there are none, since no swap has a time stamp after zero. -/
theorem real_prices_iff (ethers : Ethers) (interval : String) (hpair : pairAddr ∈ db.pairAddresses)
    (hcandles : db.ohlcv = []) (hswaps : ∀ s ∈ db.swaps, s.pairAddr = pairAddr)
    (hindexed : ∀ s ∈ db.swaps, s.Indexed) (honeWay : ∀ s ∈ db.swaps, s.OneWay) :
    ∃ db', generateOHLCV ethers db pairAddr interval = some db' ∧
      (RealPrices pairAddr interval db' ↔ ∀ s ∈ db.swaps, s.timestamp = 0) := by
  obtain ⟨db', hcall, hrest, hcandleAt⟩ :=
    generateOHLCV_first hpair hcandles fun s hs _ => hindexed s hs
  refine ⟨db', hcall, fun hreal s hs => ?_, fun hzero row hrow hrowPair hrowInterval => ?_⟩
  · -- the candle of a later swap opens with zero, which is no ratio
    by_contra hpos
    have hbucket : s ∈ (roll interval).bucket (db.swapsAfter pairAddr 0)
        ((roll interval).start s) :=
      Rollup.mem_bucket.2 ⟨mem_swapsAfter.2 ⟨hs, hswaps s hs, Nat.pos_of_ne_zero hpos⟩, rfl⟩
    have hread : ∀ s' ∈ (roll interval).bucket (db.swapsAfter pairAddr 0)
        ((roll interval).start s), s' ∈ db.swaps :=
      fun s' hs' => (mem_swapsAfter.1 (Rollup.mem_bucket.1 hs').1).1
    obtain ⟨c, hc, hopen⟩ := openPrice_entry (fun s' hs' => hindexed s' (hread s' hs'))
      (fun s' hs' => honeWay s' (hread s' hs')) (List.ne_nil_of_mem hbucket)
    rw [← hcandleAt] at hc
    obtain ⟨row, hrow, rfl⟩ := Option.map_eq_some_iff.1 hc
    have hat : row.IsAt pairAddr interval ((roll interval).start s) := by
      simpa using List.find?_some hrow
    obtain ⟨hhead, -⟩ := hreal row (List.mem_of_find?_eq_some hrow) hat.1 hat.2.1
    rw [hopen] at hhead
    obtain ⟨s', hs', hratio⟩ := List.mem_map.1 (List.mem_of_mem_head? hhead)
    have hs'mem : s' ∈ db.swaps := by
      have hsorted := (Rollup.mem_bucket.1 hs').1
      rwa [List.mem_insertionSort, hrest] at hsorted
    exact (honeWay s' hs'mem).ratio_pos.ne' hratio
  · have hempty : (roll interval).bucket (db.swapsAfter pairAddr 0) row.timestamp = [] := by
      refine Rollup.bucket_eq_nil.2 fun s hs => ?_
      obtain ⟨hmem, -, hpos⟩ := mem_swapsAfter.1 hs
      exact absurd (hzero s hmem) hpos.ne'
    have hcandle := hcandleAt row.timestamp
    rw [hempty] at hcandle
    exact absurd hcandle (PriceDatabase.candleAt_ne_none.2
      ⟨row, hrow, hrowPair, hrowInterval, rfl⟩)

/-- A swap in each direction, the second in the hour after the first. -/
theorem real_prices_iff_sample :
    ∃ db', generateOHLCV .decimal
        (tradedDatabase [sampleSwap 90000 10 0 0 9, sampleSwap 3700000 0 12 13 0]) tradedPair "1h" =
          some db' ∧
      db'.ohlcv.length = 2 ∧ ¬ RealPrices tradedPair "1h" db' := by
  have hindexed : ∀ s ∈ (tradedDatabase
      [sampleSwap 90000 10 0 0 9, sampleSwap 3700000 0 12 13 0]).swaps, s.Indexed := by
    intro s hs
    obtain rfl | rfl : s = sampleSwap 90000 10 0 0 9 ∨ s = sampleSwap 3700000 0 12 13 0 := by
      simpa [tradedDatabase] using hs
    · exact sampleSwap_indexed ..
    · exact sampleSwap_indexed ..
  obtain ⟨db', hcall, hiff⟩ := real_prices_iff .decimal "1h"
    (show tradedPair ∈ (tradedDatabase
      [sampleSwap 90000 10 0 0 9, sampleSwap 3700000 0 12 13 0]).pairAddresses by decide)
    rfl (by decide +kernel) hindexed (by decide +kernel)
  have hcandles : (generateOHLCV .decimal (tradedDatabase
      [sampleSwap 90000 10 0 0 9, sampleSwap 3700000 0 12 13 0]) tradedPair "1h").map
        (fun db' => db'.ohlcv.length) = some 2 := by
    decide +kernel
  rw [hcall] at hcandles
  refine ⟨db', hcall, Option.some.inj hcandles, fun hreal => ?_⟩
  exact absurd (hiff.1 hreal _ List.mem_cons_self) (by decide)

/-- Ten units of token0 are paid in for nine of token1: the candle has the price zero. -/
theorem candle_price_zero :
    (∀ s ∈ (tradedDatabase [sampleSwap 90000 10 0 0 9]).swaps, s.Indexed ∧ s.OneWay) ∧
      ∃ db', generateOHLCV .decimal (tradedDatabase [sampleSwap 90000 10 0 0 9]) tradedPair "1h" =
          some db' ∧
        ¬ RealPrices tradedPair "1h" db' := by
  refine ⟨?_, ?_⟩
  · intro s hs
    rw [List.mem_singleton.1 hs]
    exact ⟨sampleSwap_indexed .., by decide +kernel⟩
  · have hcall : generateOHLCV .decimal (tradedDatabase [sampleSwap 90000 10 0 0 9]) tradedPair
        "1h" = some { tradedDatabase [sampleSwap 90000 10 0 0 9] with
          ohlcv := [⟨⟨0, 0, 0, 0, 9 / 10 ^ 18⟩, tradedPair, "1h", 0⟩] } := by
      decide +kernel
    refine ⟨_, hcall, fun hreal => ?_⟩
    obtain ⟨hhead, -⟩ := hreal _ List.mem_cons_self rfl rfl
    exact absurd hhead (by decide +kernel)

end EnergyChain.Indexer
