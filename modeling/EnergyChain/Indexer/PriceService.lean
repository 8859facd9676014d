import EnergyChain.Indexer.EventIndexer
import Mathlib.Data.List.MinMax
import Mathlib.Data.List.Sort
import Mathlib.Algebra.Order.Field.Rat

/-!
# PriceService

`generateOHLCV` of `PriceService.ts`: the swaps of a pair after its last candle are
aggregated into buckets of an interval, and each bucket's candle is stored. Numbers are
exact rationals, and rows of equal time stamps are read in the order of their insertion.
-/

namespace EnergyChain.Indexer

/-- What the service relies on of `ethers`: `formatEther` prints the number of a decimal
text in units of `10 ^ 18`, here with the value that `parseFloat` reads from the print. Where
`formatEther` throws there is none. -/
structure Ethers where
  formatEther : String → Option ℚ
  formatEther_toString (n : ℕ) : formatEther (toString n) = some ((n : ℚ) / 10 ^ 18)

/-- An `Ethers` that only knows decimal texts. -/
def Ethers.decimal : Ethers where
  formatEther text :=
    if text.toList ≠ [] ∧ text.toList.all Char.isDigit then
      some ((Nat.ofDigitChars 10 text.toList 0 : ℚ) / 10 ^ 18)
    else none
  formatEther_toString n := by
    have hdigits : ∀ c ∈ Nat.toDigits 10 n, c.isDigit :=
      fun c hc => Nat.isDigit_of_mem_toDigits (by omega) (by omega) hc
    rw [Nat.toString_eq_repr, Nat.toList_repr,
      if_pos ⟨Nat.toDigits_ne_nil, List.all_eq_true.2 hdigits⟩, Nat.ofDigitChars_ten_toDigits]

/-! ### The table -/

/-- The prices and the volume of a bucket. -/
structure Candle where
  openPrice : ℚ
  high : ℚ
  low : ℚ
  close : ℚ
  volume : ℚ
deriving DecidableEq

structure OHLCV extends Candle where
  pairAddr : Address
  interval : String
  timestamp : ℕ
deriving DecidableEq

/-- The row has the unique key. -/
def OHLCV.IsAt (row : OHLCV) (pairAddr : Address) (interval : String) (timestamp : ℕ) : Prop :=
  row.pairAddr = pairAddr ∧ row.interval = interval ∧ row.timestamp = timestamp

instance (row : OHLCV) (pairAddr : Address) (interval : String) (timestamp : ℕ) :
    Decidable (row.IsAt pairAddr interval timestamp) :=
  inferInstanceAs (Decidable (_ ∧ _ ∧ _))

structure PriceDatabase extends Database where
  ohlcv : List OHLCV
deriving DecidableEq

namespace PriceDatabase

variable (db : PriceDatabase) (pairAddr : Address) (interval : String)

/-- `create` of a swap. The reference to the pair is checked. -/
def createSwap (row : Swap) : PriceDatabase :=
  if row.pairAddr ∈ db.pairAddresses then
    { db with toDatabase := (Row.swap row).insert db.toDatabase }
  else db

/-- The first row, latest time stamps first. -/
def lastCandle : Option OHLCV :=
  (db.ohlcv.filter fun row => row.pairAddr = pairAddr ∧ row.interval = interval).argmax
    OHLCV.timestamp

/-- The swaps of the pair after a time, earliest first. -/
def swapsAfter (since : ℕ) : List Swap :=
  (db.swaps.filter fun s => s.pairAddr = pairAddr ∧ since < s.timestamp).insertionSort
    fun s s' => s.timestamp ≤ s'.timestamp

def upsert (timestamp : ℕ) (candle : Candle) : PriceDatabase :=
  if ∃ row ∈ db.ohlcv, row.IsAt pairAddr interval timestamp then
    { db with ohlcv := db.ohlcv.map fun row =>
        if row.IsAt pairAddr interval timestamp then { row with toCandle := candle } else row }
  else { db with ohlcv := db.ohlcv ++ [{ candle with pairAddr, interval, timestamp }] }

def candleAt (timestamp : ℕ) : Option Candle :=
  (db.ohlcv.find? fun row => row.IsAt pairAddr interval timestamp).map OHLCV.toCandle

end PriceDatabase

/-! ### Aggregation -/

def intervalMs : List (String × ℕ) :=
  [("1m", 60000), ("5m", 300000), ("15m", 900000),
    ("1h", 3600000), ("4h", 14400000), ("1d", 86400000)]

/-- The width of the buckets, that of an hour for an unknown interval. -/
def bucketMs (interval : String) : ℕ := (intervalMs.lookup interval).getD 3600000

/-- `a || b` on texts: the empty text is falsy. -/
def orText (a b : String) : String := if a = "" then b else a

/-- What the loop computes from a swap. -/
structure Tick where
  ts : ℕ
  price : ℚ
  vol : ℚ

def tick (ethers : Ethers) (ms : ℕ) (s : Swap) : Option Tick := do
  let r0 ← ethers.formatEther (orText (orText s.amount0Out s.amount0In) "0")
  let r1 ← ethers.formatEther (orText (orText s.amount1Out s.amount1In) "0")
  return { ts := s.timestamp / ms * ms
           price := if 0 < r1 then r0 / r1 else 0
           vol := max r0 r1 }

def Candle.first (t : Tick) : Candle where
  openPrice := t.price
  high := t.price
  low := t.price
  close := t.price
  volume := t.vol

def Candle.add (b : Candle) (t : Tick) : Candle :=
  { b with
    high := max b.high t.price
    low := min b.low t.price
    close := t.price
    volume := b.volume + t.vol }

/-- The body of the loop. A `Map` keeps its keys in the order of their insertion. -/
def addTick (buckets : List (ℕ × Candle)) (t : Tick) : List (ℕ × Candle) :=
  if t.ts ∈ buckets.map Prod.fst then
    buckets.map fun (ts, b) => if ts = t.ts then (ts, b.add t) else (ts, b)
  else buckets ++ [(t.ts, .first t)]

/-- There is no result if the call throws, which it can only do before it stores a candle. -/
def generateOHLCV (ethers : Ethers) (db : PriceDatabase) (pairAddr : Address)
    (interval : String) : Option PriceDatabase :=
  if pairAddr ∉ db.pairAddresses then some db
  else
    let ms := bucketMs interval
    let since := ((db.lastCandle pairAddr interval).map OHLCV.timestamp).getD 0
    let swaps := db.swapsAfter pairAddr since
    if swaps.isEmpty then some db
    else do
      let ticks ← swaps.mapM (tick ethers ms)
      let buckets := ticks.foldl addTick []
      return buckets.foldl (fun db (ts, candle) => db.upsert pairAddr interval ts candle) db

end EnergyChain.Indexer
