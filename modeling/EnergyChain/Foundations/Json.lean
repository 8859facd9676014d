import EnergyChain.Foundations.GoStrings

/-!
# JSON documents of Go structs

`json.Marshal` and `json.Unmarshal` up to the text of a document: a document
is its syntax tree. Marshalling a struct lists its fields by tag, drops empty
`omitempty` strings and coerces every string to UTF-8; unmarshalling looks
fields up by tag, gives absent and null fields their zero value and fails on a
value of the wrong kind or outside the range of its integer type.
-/

namespace EnergyChain

inductive Json where
  | null
  | bool (b : Bool)
  | num (n : ℤ)
  | str (s : Bytes)
  | arr (elems : List Json)
  | obj (fields : List (String × Json))

/-- A type with its `json` struct tags. -/
class GoJson (α : Type*) where
  marshal : α → Json
  unmarshal : Json → Option α

namespace Json

/-! ### Fields of each kind -/

def encodeString (s : Bytes) : Json := .str (coerceUTF8 s)

def encodeStrings (xs : List Bytes) : Json := .arr (xs.map encodeString)

def encodeInt64 (x : Int64) : Json := .num x.toInt

def encodeUint64 (x : UInt64) : Json := .num x.toNat

def encodeUint32 (x : UInt32) : Json := .num x.toNat

/-- A string field tagged `omitempty`. -/
def omitEmpty (tag : String) (s : Bytes) : List (String × Json) :=
  if s = [] then [] else [(tag, encodeString s)]

def decodeString : Option Json → Option Bytes
  | none | some .null => some []
  | some (.str s) => some s
  | some _ => none

def decodeStrings : Option Json → Option (List Bytes)
  | none | some .null => some []
  | some (.arr xs) => xs.mapM fun x => decodeString (some x)
  | some _ => none

def decodeBool : Option Json → Option Bool
  | none | some .null => some false
  | some (.bool b) => some b
  | some _ => none

def decodeInt64 : Option Json → Option Int64
  | none | some .null => some 0
  | some (.num n) =>
    if -9223372036854775808 ≤ n ∧ n ≤ 9223372036854775807 then some (Int64.ofInt n) else none
  | some _ => none

def decodeUint64 : Option Json → Option UInt64
  | none | some .null => some 0
  | some (.num n) => if 0 ≤ n ∧ n ≤ 18446744073709551615 then some (UInt64.ofNat n.toNat) else none
  | some _ => none

def decodeUint32 : Option Json → Option UInt32
  | none | some .null => some 0
  | some (.num n) => if 0 ≤ n ∧ n ≤ 4294967295 then some (UInt32.ofNat n.toNat) else none
  | some _ => none

/-! ### Round trips -/

@[simp] theorem decodeString_encodeString (s : Bytes) :
    decodeString (some (encodeString s)) = some (coerceUTF8 s) := rfl

@[simp] theorem decodeStrings_encodeStrings (xs : List Bytes) :
    decodeStrings (some (encodeStrings xs)) = some (xs.map coerceUTF8) := by
  simp only [decodeStrings, encodeStrings]
  induction xs with
  | nil => rfl
  | cons x xs ih => simp [ih]

@[simp] theorem decodeBool_bool (b : Bool) : decodeBool (some (.bool b)) = some b := rfl

@[simp] theorem decodeInt64_encodeInt64 (x : Int64) :
    decodeInt64 (some (encodeInt64 x)) = some x := by
  have hlo := x.le_toInt
  have hhi := x.toInt_lt
  simp only [decodeInt64, encodeInt64]
  rw [if_pos ⟨by omega, by omega⟩, Int64.ofInt_toInt]

@[simp] theorem decodeUint64_encodeUint64 (x : UInt64) :
    decodeUint64 (some (encodeUint64 x)) = some x := by
  have hhi := x.toNat_lt
  simp only [decodeUint64, encodeUint64]
  rw [if_pos ⟨by omega, by omega⟩]
  simp

@[simp] theorem decodeUint32_encodeUint32 (x : UInt32) :
    decodeUint32 (some (encodeUint32 x)) = some x := by
  have hhi := x.toNat_lt
  simp only [decodeUint32, encodeUint32]
  rw [if_pos ⟨by omega, by omega⟩]
  simp

/-- An `omitempty` string reads back the same whether it was written or left
out, as long as no later field has its tag. -/
@[simp] theorem decodeString_lookup_omitEmpty (tag : String) (s : Bytes)
    {rest : List (String × Json)} (hrest : rest.lookup tag = none) :
    decodeString ((omitEmpty tag s ++ rest).lookup tag) = some (coerceUTF8 s) := by
  unfold omitEmpty
  split_ifs with hs
  · subst hs
    rw [List.nil_append, hrest]
    rfl
  · simp

theorem lookup_omitEmpty_of_ne {tag tag' : String} (h : tag' ≠ tag) (s : Bytes)
    (rest : List (String × Json)) :
    (omitEmpty tag s ++ rest).lookup tag' = rest.lookup tag' := by
  unfold omitEmpty
  split_ifs with hs
  · rfl
  · have hbeq : (tag' == tag) = false := by simpa using h
    simp [List.lookup_cons, hbeq]

end Json
end EnergyChain
