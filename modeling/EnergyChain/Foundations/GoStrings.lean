import EnergyChain.Foundations.ByteStrings

/-!
# String functions of the Go standard library

Go strings are byte strings. This module has the functions of `fmt`,
`encoding/hex`, `strings` and `unicode/utf8` that programs use to build
identifiers and to compare digests, with the facts about them that key
layouts rest on: decimal numerals are injective and free of separators, hex
encoding is injective, and coercion to UTF-8 leaves ASCII text alone.
-/

namespace EnergyChain

/-! ### Decimal numerals -/

/-- `fmt.Sprintf("%d", n)` for an unsigned integer. -/
def decimal (n : ℕ) : Bytes :=
  if n = 0 then ascii "0" else (Nat.digits 10 n).reverse.map fun d => Fin.ofNat 256 (48 + d)

/-- `fmt.Sprintf("%d", z)` for a signed integer. -/
def decimalInt (z : ℤ) : Bytes :=
  if z < 0 then ascii "-" ++ decimal z.natAbs else decimal z.natAbs

theorem mem_decimal {n : ℕ} {b : Byte} (h : b ∈ decimal n) : 48 ≤ b ∧ b ≤ 57 := by
  unfold decimal at h
  split_ifs at h with hn
  · have hb : b = 48 := by simpa [ascii] using h
    subst hb
    decide
  · simp only [List.mem_map, List.mem_reverse] at h
    obtain ⟨d, hd, rfl⟩ := h
    have hlt := Nat.digits_lt_base (by norm_num : 1 < 10) hd
    constructor <;> rw [Fin.le_def] <;> simp [Fin.ofNat] <;> omega

/-- Reading a decimal numeral back, most significant digit first. -/
def ofDecimal (bs : Bytes) : ℕ := Nat.ofDigits 10 (bs.reverse.map fun b => b.val - 48)

theorem ofDecimal_decimal (n : ℕ) : ofDecimal (decimal n) = n := by
  unfold ofDecimal decimal
  split_ifs with hn
  · subst hn
    rfl
  · have hdigits : ((Nat.digits 10 n).map fun d => (Fin.ofNat 256 (48 + d)).val - 48) =
        Nat.digits 10 n := by
      conv_rhs => rw [← List.map_id (Nat.digits 10 n)]
      apply List.map_congr_left
      intro d hd
      have hlt := Nat.digits_lt_base (by norm_num : 1 < 10) hd
      simp only [Fin.ofNat, id_eq]
      omega
    simp only [List.map_reverse, List.reverse_reverse, List.map_map, Function.comp_def, hdigits]
    exact Nat.ofDigits_digits 10 n

theorem decimal_injective : Function.Injective decimal :=
  Function.LeftInverse.injective ofDecimal_decimal

/-! ### Hexadecimal -/

/-- The lower-case digit of a value below sixteen. -/
def hexDigit (n : ℕ) : Byte := if n < 10 then Fin.ofNat 256 (48 + n) else Fin.ofNat 256 (87 + n)

/-- `hex.EncodeToString`. -/
def hexEncode (bs : Bytes) : Bytes :=
  bs.flatMap fun b => [hexDigit (b.val / 16), hexDigit (b.val % 16)]

theorem hexDigit_inj : ∀ m < 16, ∀ n < 16, hexDigit m = hexDigit n → m = n := by decide

theorem hexEncode_injective : Function.Injective hexEncode := by
  intro xs
  induction xs with
  | nil =>
    intro ys h
    cases ys with
    | nil => rfl
    | cons b ys => simp [hexEncode] at h
  | cons a xs ih =>
    intro ys h
    cases ys with
    | nil => simp [hexEncode] at h
    | cons b ys =>
      simp only [hexEncode, List.flatMap_cons, List.cons_append, List.nil_append,
        List.cons.injEq] at h
      obtain ⟨hhigh, hlow, hrest⟩ := h
      have hdiv := hexDigit_inj _ (by omega) _ (by omega) hhigh
      have hmod := hexDigit_inj _ (by omega) _ (by omega) hlow
      rw [ih hrest, Fin.ext (by omega : a.val = b.val)]

/-! ### Case and prefixes -/

/-- `strings.ToLower` on the ASCII letters. No other character has a lower-case
form that is a hexadecimal digit or an `x`, so comparing the result with hex
text gives the same answer as full Unicode case mapping. -/
def toLower (s : Bytes) : Bytes := s.map fun b => if 65 ≤ b ∧ b ≤ 90 then b + 32 else b

/-- `strings.ToUpper` on the ASCII letters. -/
def toUpper (s : Bytes) : Bytes := s.map fun b => if 97 ≤ b ∧ b ≤ 122 then b - 32 else b

/-- `strings.TrimPrefix`. -/
def trimPrefix (s pre : Bytes) : Bytes := if pre.isPrefixOf s then s.drop pre.length else s

/-! ### UTF-8 -/

/-- For a byte that can start a rune: how many continuation bytes follow, and
the range the first of them must lie in. -/
def leadByte (b : Byte) : Option (ℕ × Byte × Byte) :=
  if b < 0x80 then some (0, 0x80, 0xBF)
  else if b < 0xC2 then none
  else if b < 0xE0 then some (1, 0x80, 0xBF)
  else if b = 0xE0 then some (2, 0xA0, 0xBF)
  else if b = 0xED then some (2, 0x80, 0x9F)
  else if b < 0xF0 then some (2, 0x80, 0xBF)
  else if b = 0xF0 then some (3, 0x90, 0xBF)
  else if b < 0xF4 then some (3, 0x80, 0xBF)
  else if b = 0xF4 then some (3, 0x80, 0x8F)
  else none

/-- Number of continuation bytes of the rune that `b` starts in front of
`rest`, or `none` where `utf8.DecodeRune` reports an invalid byte. -/
def runeTail (b : Byte) (rest : Bytes) : Option ℕ :=
  match leadByte b with
  | none => none
  | some (0, _, _) => some 0
  | some (n + 1, lo, hi) =>
    match rest.take (n + 1) with
    | [] => none
    | c :: cs =>
      if lo ≤ c ∧ c ≤ hi ∧ cs.length = n ∧ cs.all fun c => decide (0x80 ≤ c ∧ c ≤ 0xBF) then
        some (n + 1)
      else none

/-- `utf8.ValidString`; the first argument counts the continuation bytes left
of the rune being read. -/
def validUTF8From : ℕ → Bytes → Bool
  | _, [] => true
  | n + 1, _ :: rest => validUTF8From n rest
  | 0, b :: rest =>
    match runeTail b rest with
    | some n => validUTF8From n rest
    | none => false

def ValidUTF8 (s : Bytes) : Prop := validUTF8From 0 s = true

instance (s : Bytes) : Decidable (ValidUTF8 s) := inferInstanceAs (Decidable (_ = true))

/-- U+FFFD, written for every invalid byte. -/
def replacementRune : Bytes := [0xEF, 0xBF, 0xBD]

def coerceUTF8From : ℕ → Bytes → Bytes
  | _, [] => []
  | n + 1, b :: rest => b :: coerceUTF8From n rest
  | 0, b :: rest =>
    match runeTail b rest with
    | some n => b :: coerceUTF8From n rest
    | none => replacementRune ++ coerceUTF8From 0 rest

/-- A string as `encoding/json` writes it: every byte that is not part of a
valid encoding becomes U+FFFD. -/
def coerceUTF8 (s : Bytes) : Bytes := coerceUTF8From 0 s

theorem coerceUTF8From_of_valid {n : ℕ} {s : Bytes} (h : validUTF8From n s = true) :
    coerceUTF8From n s = s := by
  induction s generalizing n with
  | nil => cases n <;> rfl
  | cons b rest ih =>
    cases n with
    | succ n => rw [coerceUTF8From, ih h]
    | zero =>
      rw [validUTF8From] at h
      rw [coerceUTF8From]
      split at h
      · rw [ih h]
      · cases h

theorem coerceUTF8_of_valid {s : Bytes} (h : ValidUTF8 s) : coerceUTF8 s = s :=
  coerceUTF8From_of_valid h

theorem length_le_coerceUTF8From (n : ℕ) (s : Bytes) : s.length ≤ (coerceUTF8From n s).length := by
  induction s generalizing n with
  | nil => exact Nat.zero_le _
  | cons b rest ih =>
    cases n with
    | succ n => simpa [coerceUTF8From] using ih n
    | zero =>
      rw [coerceUTF8From]
      split
      · simpa using ih _
      · have hrest := ih 0
        simp only [List.length_append, replacementRune, List.length_cons, List.length_nil]
        omega

theorem valid_of_length_coerceUTF8From {n : ℕ} {s : Bytes}
    (h : (coerceUTF8From n s).length ≤ s.length) : validUTF8From n s = true := by
  induction s generalizing n with
  | nil => cases n <;> rfl
  | cons b rest ih =>
    cases n with
    | succ n => exact ih (by simpa [coerceUTF8From] using h)
    | zero =>
      rw [coerceUTF8From] at h
      rw [validUTF8From]
      split at h
      · exact ih (by simpa using h)
      · have hrest := length_le_coerceUTF8From 0 rest
        simp only [List.length_append, replacementRune, List.length_cons, List.length_nil] at h
        omega

theorem coerceUTF8_eq_self_iff {s : Bytes} : coerceUTF8 s = s ↔ ValidUTF8 s :=
  ⟨fun h => valid_of_length_coerceUTF8From (congrArg List.length h).le, coerceUTF8_of_valid⟩

theorem count_zero_coerceUTF8From (n : ℕ) (s : Bytes) :
    (coerceUTF8From n s).count 0 = s.count 0 := by
  induction s generalizing n with
  | nil => cases n <;> rfl
  | cons b rest ih =>
    cases n with
    | succ n => rw [coerceUTF8From, List.count_cons, List.count_cons, ih]
    | zero =>
      rw [coerceUTF8From]
      split
      · rw [List.count_cons, List.count_cons, ih]
      · next hb =>
        have hne : b ≠ 0 := by
          rintro rfl
          cases hb
        rw [List.count_append, ih, List.count_cons_of_ne hne]
        simp [replacementRune]

theorem count_zero_coerceUTF8 (s : Bytes) : (coerceUTF8 s).count 0 = s.count 0 :=
  count_zero_coerceUTF8From 0 s

theorem length_le_coerceUTF8 (s : Bytes) : s.length ≤ (coerceUTF8 s).length :=
  length_le_coerceUTF8From 0 s

theorem validUTF8_of_ascii {s : Bytes} (h : ∀ b ∈ s, b < 0x80) : ValidUTF8 s := by
  unfold ValidUTF8
  induction s with
  | nil => rfl
  | cons b rest ih =>
    have hb : runeTail b rest = some 0 := by
      simp [runeTail, leadByte, h b List.mem_cons_self]
    rw [validUTF8From, hb]
    exact ih fun c hc => h c (List.mem_cons_of_mem _ hc)

example : coerceUTF8 [0x61, 0xFF, 0xE2, 0x82, 0xAC, 0xC3] =
    [0x61, 0xEF, 0xBF, 0xBD, 0xE2, 0x82, 0xAC, 0xEF, 0xBF, 0xBD] := by decide

end EnergyChain
