import EnergyChain.Foundations.ByteStrings
import EnergyChain.Foundations.Fallible

/-!
# Calls and checked arithmetic

What contracts compiled by Solidity 0.8 share: a call that fails reverts with
a reason or a panic code and restores the state; arithmetic on `uint256` is
checked. Numbers are natural numbers, and each operation carries its bound.
-/

namespace EnergyChain

/-- An account, by its 160-bit address. -/
structure Address where
  index : Fin 1461501637330902918203684832716283019655932542976
deriving DecidableEq

namespace Address

/-- The instance behind address literals. -/
instance neZeroAddress : NeZero 1461501637330902918203684832716283019655932542976 :=
  ⟨by decide⟩

def zero : Address := ⟨0⟩

def equivFin : Address ≃ Fin 1461501637330902918203684832716283019655932542976 :=
  ⟨Address.index, Address.mk, fun _ => rfl, fun _ => rfl⟩

instance : Fintype Address := Fintype.ofEquiv _ equivFin.symm

instance : LinearOrder Address := LinearOrder.lift' Address.index equivFin.injective

end Address

abbrev Bytes32 := BitVec 256

inductive Revert where
  | error (reason : Bytes)
  | panic (code : ℕ)
deriving DecidableEq

/-- The block a transaction is executed in. -/
structure Block where
  timestamp : ℕ
  number : ℕ

/-- One more than the greatest `uint256`. -/
def uint256Size : ℕ := 2 ^ 256

theorem uint256Size_eq : uint256Size = 2 ^ 256 := rfl

/-- `require(condition, reason)`. -/
def require (p : Prop) [Decidable p] (reason : String) : Except Revert Unit :=
  if p then .ok () else .error (.error (ascii reason))

/-- `assert(condition)`. -/
def assert (p : Prop) [Decidable p] : Except Revert Unit :=
  if p then .ok () else .error (.panic 0x01)

/-- `xs[i]` of an array in memory or in the call data. -/
def index {α : Type} (xs : List α) (i : ℕ) : Except Revert α :=
  match xs[i]? with
  | some x => .ok x
  | none => .error (.panic 0x32)

/-! ### `uint256` -/

def checkedAdd (x y : ℕ) : Except Revert ℕ :=
  if x + y < uint256Size then .ok (x + y) else .error (.panic 0x11)

def checkedSub (x y : ℕ) : Except Revert ℕ :=
  if y ≤ x then .ok (x - y) else .error (.panic 0x11)

def checkedMul (x y : ℕ) : Except Revert ℕ :=
  if x * y < uint256Size then .ok (x * y) else .error (.panic 0x11)

def checkedDiv (x y : ℕ) : Except Revert ℕ :=
  if y ≠ 0 then .ok (x / y) else .error (.panic 0x12)

section Inversion

variable {x y z : ℕ}

@[simp] theorem require_ok_iff {p : Prop} [Decidable p] {reason : String} {u : Unit} :
    require p reason = .ok u ↔ p := by
  unfold require
  split_ifs with h <;> simp [h]

@[simp] theorem assert_ok_iff {p : Prop} [Decidable p] {u : Unit} : assert p = .ok u ↔ p := by
  unfold assert
  split_ifs with h <;> simp [h]

@[simp] theorem index_ok_iff {α : Type} {xs : List α} {i : ℕ} {a : α} :
    index xs i = .ok a ↔ xs[i]? = some a := by
  unfold index
  cases xs[i]? <;> simp

@[simp] theorem checkedAdd_ok_iff : checkedAdd x y = .ok z ↔ x + y < uint256Size ∧ x + y = z := by
  unfold checkedAdd
  split_ifs with h <;> simp [h]

@[simp] theorem checkedSub_ok_iff : checkedSub x y = .ok z ↔ y ≤ x ∧ x - y = z := by
  unfold checkedSub
  split_ifs with h <;> simp [h]

@[simp] theorem checkedMul_ok_iff : checkedMul x y = .ok z ↔ x * y < uint256Size ∧ x * y = z := by
  unfold checkedMul
  split_ifs with h <;> simp [h]

@[simp] theorem checkedDiv_ok_iff : checkedDiv x y = .ok z ↔ y ≠ 0 ∧ x / y = z := by
  unfold checkedDiv
  split_ifs with h <;> simp [h]

theorem checkedAdd_eq (h : x + y < uint256Size) : checkedAdd x y = .ok (x + y) := if_pos h

theorem checkedSub_eq (h : y ≤ x) : checkedSub x y = .ok (x - y) := if_pos h

theorem checkedMul_eq (h : x * y < uint256Size) : checkedMul x y = .ok (x * y) := if_pos h

theorem checkedDiv_eq (h : y ≠ 0) : checkedDiv x y = .ok (x / y) := if_pos h

end Inversion

/-! ### Overflows -/

/-- The call answers the value, or stops with the panic of an overflow. -/
def OverflowOr {α : Type} (m : Except Revert α) (a : α) : Prop :=
  m = .error (.panic 0x11) ∨ m = .ok a

namespace OverflowOr

variable {α β : Type} {m : Except Revert α} {f : α → Except Revert β} {a : α} {b : β}

theorem bind (hm : OverflowOr m a) (hf : OverflowOr (f a) b) : OverflowOr (m >>= f) b := by
  rcases hm with rfl | rfl
  · exact Or.inl rfl
  · exact hf

theorem add (x y : ℕ) : OverflowOr (checkedAdd x y) (x + y) := by
  unfold OverflowOr checkedAdd
  split_ifs <;> simp

theorem mul (x y : ℕ) : OverflowOr (checkedMul x y) (x * y) := by
  unfold OverflowOr checkedMul
  split_ifs <;> simp

end OverflowOr

/-! ### Freedom from arithmetic panics -/

/-- The call may revert with a reason, but not for its arithmetic. -/
def NoPanic {α : Type} (m : Except Revert α) : Prop := ∀ code, m ≠ .error (.panic code)

namespace NoPanic

variable {α β : Type} {m : Except Revert α} {f : α → Except Revert β}

theorem ok (a : α) : NoPanic (.ok a : Except Revert α) := fun _ => nofun

theorem pure (a : α) : NoPanic (Pure.pure a : Except Revert α) := ok a

theorem error (reason : Bytes) : NoPanic (.error (.error reason) : Except Revert α) :=
  fun _ => nofun

theorem bind (hm : NoPanic m) (hf : ∀ a, m = .ok a → NoPanic (f a)) : NoPanic (m >>= f) := by
  cases m with
  | error e =>
    intro code h
    exact hm code (congrArg Except.error (Except.error.inj h))
  | ok a => exact hf a rfl

theorem require (p : Prop) [Decidable p] (reason : String) :
    NoPanic (EnergyChain.require p reason) := by
  unfold EnergyChain.require
  split_ifs
  · exact ok ()
  · exact error _

theorem of_eq_ok {a : α} (h : m = .ok a) : NoPanic m := h ▸ ok a

end NoPanic
end EnergyChain
