import EnergyChain.Foundations.Json
import EnergyChain.Foundations.MessageRuns
import EnergyChain.Foundations.OrderedStore

/-!
# What the modules use of the Cosmos SDK

A module's KV store maps byte-string keys to values; a value is the bytes of a
number, an identifier or an index mark, or a JSON document. Handlers read the
height, time and transaction bytes of the block they run in. Address decoding
is a parameter of the modules, with the one property of BIP-173 they rely on.
-/

namespace EnergyChain

/-- A stored value: plain bytes or the document `json.Marshal` returned. -/
inductive StoredValue where
  | raw (bz : Bytes)
  | doc (j : Json)

namespace StoredValue

/-- `binary.BigEndian.Uint64`. Counter keys hold eight plain bytes. -/
def toUint64 : StoredValue → UInt64
  | .raw bz => UInt64.ofNat (ofBigEndian (bz.take 8))
  | .doc _ => 0

/-- `string(bz)`. Index keys hold plain bytes. -/
def toBytes : StoredValue → Bytes
  | .raw bz => bz
  | .doc _ => []

/-- `json.Unmarshal(bz, &x)`; `none` is an error. -/
def unmarshal {α : Type} [GoJson α] : StoredValue → Option α
  | .raw _ => none
  | .doc j => GoJson.unmarshal j

end StoredValue

/-- `json.Marshal(x)` as a stored value. -/
def marshal {α : Type} [GoJson α] (x : α) : StoredValue := .doc (GoJson.marshal x)

@[simp] theorem unmarshal_marshal {α : Type} [GoJson α] (x : α) :
    (marshal x).unmarshal (α := α) = GoJson.unmarshal (GoJson.marshal x) := by
  simp only [marshal, StoredValue.unmarshal]

/-- `binary.BigEndian.PutUint64`. -/
def uint64Bytes (v : UInt64) : Bytes := bigEndian 8 v.toNat

@[simp] theorem uint64Bytes_length (v : UInt64) : (uint64Bytes v).length = 8 :=
  bigEndian_length 8 v.toNat

theorem ofBigEndian_uint64Bytes (v : UInt64) : ofBigEndian (uint64Bytes v) = v.toNat := by
  rw [uint64Bytes, ofBigEndian_bigEndian]
  exact Nat.mod_eq_of_lt v.toNat_lt

theorem uint64Bytes_injective : Function.Injective uint64Bytes := by
  intro v w h
  have hv := congrArg ofBigEndian h
  rw [ofBigEndian_uint64Bytes, ofBigEndian_uint64Bytes] at hv
  exact UInt64.toNat_inj.mp hv

theorem uint64Bytes_lt_iff {v w : UInt64} : uint64Bytes v < uint64Bytes w ↔ v < w :=
  (bigEndian_lt_iff v.toNat_lt w.toNat_lt).trans UInt64.lt_iff_toNat_lt.symm

@[simp] theorem toUint64_raw_uint64Bytes (v : UInt64) :
    (StoredValue.raw (uint64Bytes v)).toUint64 = v := by
  rw [StoredValue.toUint64, List.take_of_length_le (by simp), ofBigEndian_uint64Bytes]
  simp

/-! ### Timestamps in keys -/

theorem toInt_eq_toUInt64 (t : Int64) : t.toInt =
    if t.toUInt64.toNat < 2 ^ 63 then (t.toUInt64.toNat : ℤ) else t.toUInt64.toNat - 2 ^ 64 := by
  have hcond := BitVec.toInt_eq_toNat_cond t.toBitVec
  rw [Int64.toInt_toBitVec, Int64.toNat_toBitVec] at hcond
  rw [hcond]
  split_ifs <;> omega

@[simp] theorem uint64Bytes_toUInt64_inj {t t' : Int64} :
    uint64Bytes t.toUInt64 = uint64Bytes t'.toUInt64 ↔ t = t' :=
  ⟨fun h => congrArg UInt64.toInt64 (uint64Bytes_injective h), fun h => by rw [h]⟩

theorem toUInt64_lt_iff {t t' : Int64} (hpos : 0 ≤ t) (hpos' : 0 ≤ t') :
    t.toUInt64 < t'.toUInt64 ↔ t < t' := by
  have hzero : (0 : Int64).toInt = 0 := rfl
  have ht := toInt_eq_toUInt64 t
  have ht' := toInt_eq_toUInt64 t'
  have htlt := t.toUInt64.toNat_lt
  have htlt' := t'.toUInt64.toNat_lt
  rw [Int64.le_iff_toInt_le, hzero] at hpos hpos'
  rw [UInt64.lt_iff_toNat_lt, Int64.lt_iff_toInt_lt]
  split_ifs at ht ht' <;> omega

/-- The keys from `fromTime` up to the one after `toTime`: negative bounds count as
times after all others. -/
theorem toUInt64_range_iff {t fromTime toTime : Int64} (hpos : 0 ≤ t) :
    fromTime.toUInt64 ≤ t.toUInt64 ∧ t.toUInt64 < (toTime + 1).toUInt64 ↔
      0 ≤ fromTime ∧ fromTime ≤ t ∧ (t ≤ toTime ∨ toTime < -1) := by
  have hone : (1 : Int64).toUInt64.toNat = 1 := rfl
  have hzero : (0 : Int64).toInt = 0 := rfl
  have hneg : (-1 : Int64).toInt = -1 := rfl
  have ht := toInt_eq_toUInt64 t
  have hfrom := toInt_eq_toUInt64 fromTime
  have hto := toInt_eq_toUInt64 toTime
  have htlt := t.toUInt64.toNat_lt
  have hfromlt := fromTime.toUInt64.toNat_lt
  have htolt := toTime.toUInt64.toNat_lt
  rw [Int64.toUInt64_add, UInt64.le_iff_toNat_le, UInt64.lt_iff_toNat_lt, UInt64.toNat_add, hone]
  rw [Int64.le_iff_toInt_le, hzero] at hpos
  simp only [Int64.le_iff_toInt_le, Int64.lt_iff_toInt_lt, hzero, hneg]
  split_ifs at ht hfrom hto <;> omega

abbrev KVStore := OrderedStore Bytes StoredValue

/-- What a handler reads of `sdk.Context` besides the store. -/
structure Context where
  blockHeight : Int64
  blockTime : Int64
  txBytes : Bytes
deriving DecidableEq, Repr

/-- How a handler or a query fails: with an error text, or by a panic. -/
inductive Failure where
  | error (msg : Bytes)
  | panic
deriving DecidableEq

/-- `sdk.AccAddressFromBech32`: the account of an address, or the error text. -/
abbrev AddressDecoder := Bytes → Except Bytes Bytes

/-- BIP-173 admits only printable ASCII in an address. -/
def PrintableAddresses (accAddressFromBech32 : AddressDecoder) : Prop :=
  ∀ address account, accAddressFromBech32 address = .ok account →
    ∀ b ∈ address, 33 ≤ b ∧ b ≤ 126

theorem PrintableAddresses.zero_notMem {decode : AddressDecoder} (h : PrintableAddresses decode)
    {address account : Bytes} (hok : decode address = .ok account) : (0 : Byte) ∉ address := by
  intro hmem
  have hlow := (h address account hok 0 hmem).1
  exact absurd hlow (by decide)

theorem PrintableAddresses.validUTF8 {decode : AddressDecoder} (h : PrintableAddresses decode)
    {address account : Bytes} (hok : decode address = .ok account) : ValidUTF8 address := by
  apply validUTF8_of_ascii
  intro b hb
  exact lt_of_le_of_lt (h address account hok b hb).2 (by decide)

/-- The account of twenty `0x01` bytes, as the chain writes its address. -/
def sampleAddress : Bytes := ascii "energy1qyqszqgpqyqszqgpqyqszqgpqyqszqgpux0vw7"

/-- The account of the bytes from `0x00` to `0x13`. -/
def otherAddress : Bytes := ascii "energy1qqqsyqcyq5rqwzqfpg9scrgwpugpzysndrlgjm"

/-- A decoder that knows one address. -/
def sampleDecoder : AddressDecoder := fun address =>
  if address = sampleAddress then .ok (List.replicate 20 1)
  else .error (ascii "decoding bech32 failed")

theorem sampleDecoder_printable : PrintableAddresses sampleDecoder := by
  intro address account h
  by_cases haddr : address = sampleAddress
  · subst haddr
    decide +kernel
  · simp [sampleDecoder, haddr] at h

end EnergyChain
