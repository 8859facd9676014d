import Mathlib.Tactic

/-!
# Trades at a constant product

A pool with reserves of two assets takes an amount of one and gives an amount of
the other. Of `d` parts of what comes in it counts `n`; the product of the reserves
then must not fall. The greatest amount it can give is a quotient.
-/

namespace EnergyChain.ConstantProduct

/-- What the pool gives for `x`, at the reserve `r` of the asset that comes in and
the reserve `s` of the other. -/
def amountOut (n d x r s : ℕ) : ℕ := x * n * s / (r * d + x * n)

variable {n d x r s y : ℕ}

/-- It is the greatest amount that keeps the counted product. -/
theorem le_amountOut_iff (hpos : 0 < r * d) (hy : y ≤ s) :
    y ≤ amountOut n d x r s ↔ r * d * s ≤ (r * d + x * n) * (s - y) := by
  have hdenominator : 0 < r * d + x * n := by omega
  rw [amountOut, Nat.le_div_iff_mul_le hdenominator]
  zify [hy]
  constructor
  · intro h
    linarith
  · intro h
    linarith

theorem pos_of_amountOut_pos (h : 0 < amountOut n d x r s) : 0 < x ∧ 0 < s := by
  constructor
  · rcases Nat.eq_zero_or_pos x with rfl | hx
    · simp [amountOut] at h
    · exact hx
  · rcases Nat.eq_zero_or_pos s with rfl | hs
    · simp [amountOut] at h
    · exact hs

theorem amountOut_lt (hpos : 0 < r * d) (hs : 0 < s) : amountOut n d x r s < s := by
  refine Nat.div_lt_of_lt_mul ?_
  nlinarith

theorem amountOut_le : amountOut n d x r s ≤ s := by
  apply Nat.div_le_of_le_mul
  exact Nat.mul_le_mul_right s (Nat.le_add_left _ _)

theorem amountOut_mono {x' : ℕ} (hpos : 0 < r * d) (hle : x ≤ x') :
    amountOut n d x r s ≤ amountOut n d x' r s := by
  rw [le_amountOut_iff hpos amountOut_le]
  calc r * d * s ≤ (r * d + x * n) * (s - amountOut n d x r s) :=
        (le_amountOut_iff hpos amountOut_le).mp le_rfl
    _ ≤ (r * d + x' * n) * (s - amountOut n d x r s) :=
      Nat.mul_le_mul_right _ (Nat.add_le_add_left (Nat.mul_le_mul_right n hle) _)

/-- What it gives, traded back at the same reserves, gives no more than came in. -/
theorem amountOut_back_le (hn : n ≤ d) :
    amountOut n d (amountOut n d x r s) s r ≤ x := by
  have hgiven : amountOut n d x r s * (r * d + x * n) ≤ x * n * s := Nat.div_mul_le_self _ _
  apply Nat.div_le_of_le_mul
  calc amountOut n d x r s * n * r ≤ amountOut n d x r s * d * r :=
        Nat.mul_le_mul_right r (Nat.mul_le_mul_left _ hn)
    _ = amountOut n d x r s * (r * d) := by ring
    _ ≤ amountOut n d x r s * (r * d + x * n) := Nat.mul_le_mul_left _ (Nat.le_add_right _ _)
    _ ≤ x * n * s := hgiven
    _ ≤ x * d * s := Nat.mul_le_mul_right s (Nat.mul_le_mul_left x hn)
    _ = s * d * x := by ring
    _ ≤ (s * d + amountOut n d x r s * n) * x := Nat.mul_le_mul_right x (Nat.le_add_right _ _)

/-- Two trades one after the other give no more than one trade of both amounts. -/
theorem add_le_amountOut {x' y' : ℕ} (hn : n ≤ d) (hpos : 0 < r * d)
    (hy : y ≤ amountOut n d x r s) (hy' : y' ≤ amountOut n d x' (r + x) (s - y)) :
    y + y' ≤ amountOut n d (x + x') r s := by
  have hys : y ≤ s := hy.trans amountOut_le
  have hys' : y' ≤ s - y := hy'.trans amountOut_le
  have hpos' : 0 < (r + x) * d := by nlinarith
  have hfirst := (le_amountOut_iff hpos hys).mp hy
  have hsecond := (le_amountOut_iff hpos' hys').mp hy'
  rw [le_amountOut_iff hpos (by omega), ← Nat.sub_sub]
  -- The second trade counts all of what the first has left in the reserve.
  have hcounted : ((r + x) * d + x' * n) * (r * d + x * n) ≤
      (r + x) * d * (r * d + (x + x') * n) := by
    have hmore : x' * n * (r * d + x * n) ≤ x' * n * (r * d + x * d) :=
      Nat.mul_le_mul_left _ (Nat.add_le_add_left (Nat.mul_le_mul_left x hn) _)
    calc ((r + x) * d + x' * n) * (r * d + x * n)
        = (r + x) * d * (r * d + x * n) + x' * n * (r * d + x * n) := by ring
      _ ≤ (r + x) * d * (r * d + x * n) + x' * n * (r * d + x * d) := Nat.add_le_add_left hmore _
      _ = (r + x) * d * (r * d + (x + x') * n) := by ring
  apply Nat.le_of_mul_le_mul_left _ hpos'
  calc (r + x) * d * (r * d * s) ≤ (r + x) * d * ((r * d + x * n) * (s - y)) :=
        Nat.mul_le_mul_left _ hfirst
    _ = (r * d + x * n) * ((r + x) * d * (s - y)) := by ring
    _ ≤ (r * d + x * n) * (((r + x) * d + x' * n) * (s - y - y')) :=
      Nat.mul_le_mul_left _ hsecond
    _ = ((r + x) * d + x' * n) * (r * d + x * n) * (s - y - y') := by ring
    _ ≤ (r + x) * d * (r * d + (x + x') * n) * (s - y - y') := Nat.mul_le_mul_right _ hcounted
    _ = (r + x) * d * ((r * d + (x + x') * n) * (s - y - y')) := by ring

/-- The product of the reserves does not fall, whatever it gives up to there. -/
theorem product_le (hn : n ≤ d) (hpos : 0 < r * d) (hs : 0 < s)
    (hy : y ≤ amountOut n d x r s) : r * s ≤ (r + x) * (s - y) := by
  have hd : 0 < d := Nat.pos_of_mul_pos_left hpos
  have hys : y ≤ s := hy.trans (amountOut_lt hpos hs).le
  refine Nat.le_of_mul_le_mul_right ?_ hd
  calc r * s * d = r * d * s := by ring
    _ ≤ (r * d + x * n) * (s - y) := (le_amountOut_iff hpos hys).mp hy
    _ ≤ (r * d + x * d) * (s - y) :=
      Nat.mul_le_mul_right _ (Nat.add_le_add_left (Nat.mul_le_mul_left x hn) _)
    _ = (r + x) * (s - y) * d := by ring

/-! ### The amount to pay for an output -/

/-- What the pool asks for `y` of the other asset: the quotient and one more. -/
def amountIn (n d y r s : ℕ) : ℕ := r * y * d / ((s - y) * n) + 1

theorem le_amountOut_iff_mul_le (hpos : 0 < r * d) (hy : y ≤ s) :
    y ≤ amountOut n d x r s ↔ r * y * d ≤ x * ((s - y) * n) := by
  rw [le_amountOut_iff hpos hy]
  zify [hy]
  constructor
  · intro h
    linarith
  · intro h
    linarith

/-- It is enough. -/
theorem le_amountOut_amountIn (hn : 0 < n) (hpos : 0 < r * d) (hy : y < s) :
    y ≤ amountOut n d (amountIn n d y r s) r s := by
  have hdenominator : 0 < (s - y) * n := Nat.mul_pos (Nat.sub_pos_of_lt hy) hn
  rw [le_amountOut_iff_mul_le hpos hy.le, amountIn, Nat.mul_comm (_ + 1)]
  exact (Nat.lt_mul_div_succ _ hdenominator).le

/-- Two less are not enough. -/
theorem amountOut_lt_of_add_two_le (hn : 0 < n) (hpos : 0 < r * d) (hy : y < s)
    (hx : x + 2 ≤ amountIn n d y r s) : amountOut n d x r s < y := by
  have hdenominator : 0 < (s - y) * n := Nat.mul_pos (Nat.sub_pos_of_lt hy) hn
  have hless : x + 1 ≤ r * y * d / ((s - y) * n) := by
    rw [amountIn] at hx
    omega
  have hmul : (x + 1) * ((s - y) * n) ≤ r * y * d := (Nat.le_div_iff_mul_le hdenominator).mp hless
  by_contra hle
  have hpaid := (le_amountOut_iff_mul_le hpos hy.le).mp (Nat.not_lt.mp hle)
  rw [Nat.add_mul, Nat.one_mul] at hmul
  omega

/-! ### Amounts in the proportion of the reserves -/

/-- What belongs to `x` of one asset, rounded down. -/
def proportional (x r s : ℕ) : ℕ := x * s / r

/-- Of two amounts, one belongs to no more than the other: where `y` is too
little for `x`, no more than `x` belongs to it. -/
theorem proportional_le_of_lt (h : y < proportional x r s) : proportional y s r ≤ x := by
  have hr : 0 < r := by
    by_contra hzero
    obtain rfl : r = 0 := by omega
    simp [proportional] at h
  have hmul : (y + 1) * r ≤ x * s := (Nat.le_div_iff_mul_le hr).mp h
  apply Nat.div_le_of_le_mul
  nlinarith

end EnergyChain.ConstantProduct
