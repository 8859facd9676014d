import EnergyChain.Foundations.GoStrings

/-!
# JavaScript strings

A string is a sequence of UTF-16 code units, surrogates included whether paired
or not; its length counts code units. Hex text is what libraries print bytes as.
-/

namespace EnergyChain

abbrev CodeUnit := Fin 65536

/-- The instance behind code unit literals. -/
instance neZeroCodeUnit : NeZero 65536 := ⟨by decide⟩

abbrev JsString := List CodeUnit

/-- ASCII text, one code unit a byte. -/
def ofAscii (bs : Bytes) : JsString := bs.map (Fin.castLE (by decide))

/-- An ASCII literal. -/
def js (s : String) : JsString := ofAscii (ascii s)

def startsWith (s searchString : JsString) : Bool := searchString.isPrefixOf s

/-- `toLowerCase` on the ASCII letters. No other character has a lower-case form
that is a hexadecimal digit or an `x`, so comparing the result with hex text gives
the same answer as full Unicode case mapping. -/
def toLowerCase (s : JsString) : JsString := s.map fun c => if 65 ≤ c ∧ c ≤ 90 then c + 32 else c

/-- Bytes as `0x` and two lower-case digits for each of them. -/
def hexlify (bs : Bytes) : JsString := js "0x" ++ ofAscii (hexEncode bs)

/-- The value of a hexadecimal digit of either case. -/
def hexValue (c : CodeUnit) : Option ℕ :=
  if 48 ≤ c ∧ c ≤ 57 then some (c.val - 48)
  else if 97 ≤ c ∧ c ≤ 102 then some (c.val - 87)
  else if 65 ≤ c ∧ c ≤ 70 then some (c.val - 55)
  else none

def hexPairs : JsString → Option Bytes
  | [] => some []
  | [_] => none
  | high :: low :: rest => do
    let h ← hexValue high
    let l ← hexValue low
    let bs ← hexPairs rest
    return Fin.ofNat 256 (16 * h + l) :: bs

/-- The bytes of a hex text, if it is one. -/
def getBytes (s : JsString) : Option Bytes :=
  if startsWith s (js "0x") then hexPairs (s.drop 2) else none

theorem hexValue_hexDigit :
    ∀ n < 16, hexValue (Fin.castLE (by decide) (hexDigit n)) = some n := by decide

theorem hexPairs_hexEncode (bs : Bytes) : hexPairs (ofAscii (hexEncode bs)) = some bs := by
  induction bs with
  | nil => rfl
  | cons b bs ih =>
    have hhigh := hexValue_hexDigit (b.val / 16) (by omega)
    have hlow := hexValue_hexDigit (b.val % 16) (by omega)
    have hbyte : Fin.ofNat 256 (16 * (b.val / 16) + b.val % 16) = b := by
      rw [Nat.div_add_mod]
      exact Fin.ofNat_val_eq_self b
    change hexPairs (_ :: _ :: ofAscii (hexEncode bs)) = _
    rw [hexPairs, hhigh, hlow, ih]
    exact congrArg (fun c => some (c :: bs)) hbyte

theorem getBytes_hexlify (bs : Bytes) : getBytes (hexlify bs) = some bs := by
  have hstart : startsWith (hexlify bs) (js "0x") = true := by
    rw [startsWith, List.isPrefixOf_iff_prefix]
    exact List.prefix_append _ _
  rw [getBytes, if_pos hstart]
  exact hexPairs_hexEncode bs

theorem hexlify_injective : Function.Injective hexlify := by
  intro bs bs' h
  have hread := congrArg getBytes h
  rwa [getBytes_hexlify, getBytes_hexlify, Option.some_inj] at hread

theorem hexDigit_notUpper : ∀ n < 16, ¬ (65 ≤ hexDigit n ∧ hexDigit n ≤ 90) := by decide

theorem toLowerCase_ofAscii_hexEncode (bs : Bytes) :
    toLowerCase (ofAscii (hexEncode bs)) = ofAscii (hexEncode bs) := by
  have hkeep : ∀ b ∈ hexEncode bs, ¬ (65 ≤ b ∧ b ≤ 90) := by
    intro b hb
    simp only [hexEncode, List.mem_flatMap, List.mem_cons, List.not_mem_nil, or_false] at hb
    obtain ⟨a, -, rfl | rfl⟩ := hb
    · exact hexDigit_notUpper _ (by omega)
    · exact hexDigit_notUpper _ (by omega)
  rw [toLowerCase, ofAscii, List.map_map]
  exact List.map_congr_left fun b hb => if_neg (hkeep b hb)

theorem toLowerCase_hexlify (bs : Bytes) : toLowerCase (hexlify bs) = hexlify bs := by
  have happend : ∀ s t : JsString, toLowerCase (s ++ t) = toLowerCase s ++ toLowerCase t :=
    fun _ _ => List.map_append
  rw [hexlify, happend, toLowerCase_ofAscii_hexEncode]
  rfl

end EnergyChain
