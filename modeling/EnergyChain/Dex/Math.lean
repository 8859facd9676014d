import EnergyChain.Evm.Checked
import Mathlib.Data.Nat.Sqrt

/-!
# The square root of the exchange

`Math.sqrt` takes Newton steps in checked arithmetic, from above, until a step
no longer goes down. On all of `uint256` no step fails and the result is the
integer square root.
-/

namespace EnergyChain.Dex

/-- The loop of `sqrt`, at the values `z` and `x` of its variables. -/
def sqrtLoop (y z x : ℕ) : Except Revert ℕ :=
  if x < z then do
    let quotient ← checkedDiv y x
    let sum ← checkedAdd quotient x
    sqrtLoop y x (sum / 2)
  else .ok z
termination_by z

def sqrt (y : ℕ) : Except Revert ℕ :=
  if y > 3 then do
    let x ← checkedAdd (y / 2) 1
    sqrtLoop y y x
  else if y ≠ 0 then .ok 1
  else .ok 0

/-! ### Newton steps -/

section Newton

variable {y z : ℕ}

theorem sqrt_le_newton (hz : 0 < z) : Nat.sqrt y ≤ (y / z + z) / 2 := by
  have hroot := Nat.sqrt_le' y
  have hdiv := Nat.div_add_mod y z
  have hmod := Nat.mod_lt y hz
  by_contra hlt
  -- Below it, `z` times twice the step would be smaller than the square of the root.
  have hsum : y / z + z + 1 ≤ 2 * Nat.sqrt y := by omega
  have hmul := Nat.mul_le_mul_left z hsum
  nlinarith [sq_nonneg ((z : ℤ) - Nat.sqrt y)]

theorem newton_lt (hlt : Nat.sqrt y < z) : (y / z + z) / 2 < z := by
  have hroot : y < z ^ 2 := Nat.sqrt_lt'.mp hlt
  have hdiv : y / z < z := Nat.div_lt_of_lt_mul (by rwa [← sq])
  omega

end Newton

/-- The sum of a step fits: the quotient and the divisor are both about half
of the operand at most. -/
theorem newton_sum_lt {y x : ℕ} (hsize : y < uint256Size) (hx : 2 ≤ x) (hxy : x ≤ y / 2 + 1) :
    y / x + x < uint256Size := by
  have hdiv : y / x ≤ y / 2 := Nat.div_le_div_left hx two_pos
  have heven : uint256Size = 2 * 2 ^ 255 := by norm_num [uint256Size]
  omega

/-- The loop ends at the root when neither variable is below it, and `x` goes
down from every `z` above it. -/
theorem sqrtLoop_eq {y z x : ℕ} (hsize : y < uint256Size) (hy : 3 < y) (hz : Nat.sqrt y ≤ z)
    (hx : Nat.sqrt y ≤ x) (hdown : Nat.sqrt y < z → x < z) (hxy : x < z → x ≤ y / 2 + 1) :
    sqrtLoop y z x = .ok (Nat.sqrt y) := by
  induction z using Nat.strong_induction_on generalizing x with
  | _ z ih =>
    have htwo : 2 ≤ x := (Nat.le_sqrt'.mpr (by omega : 2 ^ 2 ≤ y)).trans hx
    rw [sqrtLoop]
    split_ifs with hstep
    · have hsum := newton_sum_lt hsize htwo (hxy hstep)
      have hnext := ih x hstep hx (sqrt_le_newton (y := y) (by omega)) newton_lt
        (fun hlt => hlt.le.trans (hxy hstep))
      simpa [checkedDiv, checkedAdd, hsum, show x ≠ 0 by omega, bind, Except.bind] using hnext
    · have hnot : ¬ Nat.sqrt y < z := fun h => hstep (hdown h)
      rw [Nat.le_antisymm hz (Nat.not_lt.mp hnot)]

theorem sqrt_eq {y : ℕ} (hsize : y < uint256Size) : sqrt y = .ok (Nat.sqrt y) := by
  unfold sqrt
  split_ifs with hlarge hpos
  · have hfirst : y / 2 + 1 < uint256Size := by omega
    have hroot : Nat.sqrt y ≤ y / 2 + 1 := by
      have hnewton := sqrt_le_newton (y := y) (z := y) (by omega)
      rw [Nat.div_self (by omega)] at hnewton
      omega
    have hloop := sqrtLoop_eq hsize hlarge (Nat.sqrt_le_self y) hroot
      (fun _ => by omega) (fun _ => le_rfl)
    simpa [checkedAdd, hfirst, bind, Except.bind] using hloop
  · have hone : Nat.sqrt y = 1 := (Nat.eq_sqrt'.mpr (by omega)).symm
    rw [hone]
  · have hzero : y = 0 := by omega
    rw [hzero, Nat.sqrt_zero]

/-- On every `uint256` the loop ends without a revert, and the square of its
result is the last one that is not above the operand. -/
theorem sqrt_integer_root (y : ℕ) (hsize : y < uint256Size) :
    ∃ z, sqrt y = .ok z ∧ z ^ 2 ≤ y ∧ y < (z + 1) ^ 2 := by
  have hbelow : Nat.sqrt y ^ 2 ≤ y := Nat.sqrt_le' y
  have habove : y < (Nat.sqrt y + 1) ^ 2 := Nat.lt_succ_sqrt' y
  exact ⟨Nat.sqrt y, sqrt_eq hsize, hbelow, habove⟩

/-- At the top of the range. -/
theorem sqrt_integer_root_maximum :
    2 ^ 256 - 1 < uint256Size ∧
      ∃ z, sqrt (2 ^ 256 - 1) = .ok z ∧ z ^ 2 ≤ 2 ^ 256 - 1 ∧ 2 ^ 256 - 1 < (z + 1) ^ 2 := by
  have hsize : 2 ^ 256 - 1 < uint256Size := by norm_num [uint256Size]
  exact ⟨hsize, sqrt_integer_root (2 ^ 256 - 1) hsize⟩

end EnergyChain.Dex
