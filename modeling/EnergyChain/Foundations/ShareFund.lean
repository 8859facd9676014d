import Mathlib.Data.Nat.Sqrt
import Mathlib.Tactic

/-!
# Funds of two assets with shares

A fund holds two reserves, and its shares are claims on both. The value of a
share is measured by the product of the reserves over the square of the number
of shares. Deposits and withdrawals at amounts that were rounded against the
holder never lower it, nor does a trade that keeps the product. A fee on the
growth of the root of the product lowers it, though not below the value at
which every share is backed.
-/

namespace EnergyChain

structure Fund where
  reserve0 : ℕ
  reserve1 : ℕ
  shares : ℕ

namespace Fund

def product (f : Fund) : ℕ := f.reserve0 * f.reserve1

/-- The value of a share in `f'` is at least its value in `f`. -/
def NotDiluted (f f' : Fund) : Prop := f.product * f'.shares ^ 2 ≤ f'.product * f.shares ^ 2

/-- There are no more shares than the root of the product. -/
def Backed (f : Fund) : Prop := f.shares ^ 2 ≤ f.product

variable {f g : Fund}

namespace NotDiluted

theorem refl (f : Fund) : NotDiluted f f := le_rfl

theorem trans {h : Fund} (hfg : NotDiluted f g) (hgh : NotDiluted g h) (hpos : 0 < g.shares) :
    NotDiluted f h := by
  apply Nat.le_of_mul_le_mul_right _ (Nat.pow_pos hpos : 0 < g.shares ^ 2)
  calc f.product * h.shares ^ 2 * g.shares ^ 2
      = f.product * g.shares ^ 2 * h.shares ^ 2 := Nat.mul_right_comm _ _ _
    _ ≤ g.product * f.shares ^ 2 * h.shares ^ 2 := Nat.mul_le_mul_right _ hfg
    _ = g.product * h.shares ^ 2 * f.shares ^ 2 := Nat.mul_right_comm _ _ _
    _ ≤ h.product * g.shares ^ 2 * f.shares ^ 2 := Nat.mul_le_mul_right _ hgh
    _ = h.product * f.shares ^ 2 * g.shares ^ 2 := Nat.mul_right_comm _ _ _

theorem mono {b₀ b₁ s x₀ x₁ s' r₀ r₁ y₀ y₁ : ℕ} (hle : NotDiluted ⟨b₀, b₁, s⟩ ⟨x₀, x₁, s'⟩)
    (hr : r₀ * r₁ ≤ b₀ * b₁) (hx : x₀ * x₁ ≤ y₀ * y₁) :
    NotDiluted ⟨r₀, r₁, s⟩ ⟨y₀, y₁, s'⟩ :=
  calc r₀ * r₁ * s' ^ 2 ≤ b₀ * b₁ * s' ^ 2 := Nat.mul_le_mul_right _ hr
    _ ≤ x₀ * x₁ * s ^ 2 := hle
    _ ≤ y₀ * y₁ * s ^ 2 := Nat.mul_le_mul_right _ hx

theorem of_product_le {r₀ r₁ y₀ y₁ : ℕ} (s : ℕ) (hle : r₀ * r₁ ≤ y₀ * y₁) :
    NotDiluted ⟨r₀, r₁, s⟩ ⟨y₀, y₁, s⟩ := mono (refl _) le_rfl hle

/-- A deposit that mints at most its share of either asset. -/
theorem deposit {r₀ r₁ s a₀ a₁ l : ℕ} (h₀ : l * r₀ ≤ a₀ * s) (h₁ : l * r₁ ≤ a₁ * s) :
    NotDiluted ⟨r₀, r₁, s⟩ ⟨r₀ + a₀, r₁ + a₁, s + l⟩ := by
  have hside₀ : r₀ * (s + l) ≤ (r₀ + a₀) * s := by linarith
  have hside₁ : r₁ * (s + l) ≤ (r₁ + a₁) * s := by linarith
  calc r₀ * r₁ * (s + l) ^ 2 = r₀ * (s + l) * (r₁ * (s + l)) := by ring
    _ ≤ (r₀ + a₀) * s * ((r₁ + a₁) * s) := Nat.mul_le_mul hside₀ hside₁
    _ = (r₀ + a₀) * (r₁ + a₁) * s ^ 2 := by ring

theorem remaining_le {b s l a : ℕ} (ha : a ≤ b) (hl : l ≤ s) (h : a * s ≤ l * b) :
    b * (s - l) ≤ (b - a) * s := by
  zify [ha, hl]
  zify at h
  linarith

/-- A withdrawal that pays at most the burned share of either asset. -/
theorem withdraw {b₀ b₁ s a₀ a₁ l : ℕ} (ha₀ : a₀ ≤ b₀) (ha₁ : a₁ ≤ b₁) (hl : l ≤ s)
    (h₀ : a₀ * s ≤ l * b₀) (h₁ : a₁ * s ≤ l * b₁) :
    NotDiluted ⟨b₀, b₁, s⟩ ⟨b₀ - a₀, b₁ - a₁, s - l⟩ := by
  have hside₀ := remaining_le ha₀ hl h₀
  have hside₁ := remaining_le ha₁ hl h₁
  calc b₀ * b₁ * (s - l) ^ 2 = b₀ * (s - l) * (b₁ * (s - l)) := by ring
    _ ≤ (b₀ - a₀) * s * ((b₁ - a₁) * s) := Nat.mul_le_mul hside₀ hside₁
    _ = (b₀ - a₀) * (b₁ - a₁) * s ^ 2 := by ring

theorem backed (hfg : NotDiluted f g) (hf : f.Backed) (hpos : 0 < f.shares) : g.Backed := by
  have hsquare : 0 < f.shares ^ 2 := Nat.pow_pos hpos
  refine Nat.le_of_mul_le_mul_right ?_ hsquare
  calc g.shares ^ 2 * f.shares ^ 2 = f.shares ^ 2 * g.shares ^ 2 := Nat.mul_comm _ _
    _ ≤ f.product * g.shares ^ 2 := Nat.mul_le_mul_right _ hf
    _ ≤ g.product * f.shares ^ 2 := hfg

end NotDiluted

namespace Backed

theorem product_pos (hf : f.Backed) (hpos : 0 < f.shares) : 0 < f.product :=
  (Nat.pow_pos hpos).trans_le hf

theorem shares_le_sqrt (hf : f.Backed) : f.shares ≤ Nat.sqrt f.product := by
  rw [Nat.le_sqrt']
  exact hf

theorem shares_lt {n : ℕ} (hf : f.Backed) (h₀ : f.reserve0 < n) (h₁ : f.reserve1 < n) :
    f.shares < n := by
  have hproduct : f.product ≤ n * n := Nat.mul_le_mul h₀.le h₁.le
  by_contra hge
  have hn : 0 < n := by omega
  have hlt : f.product < n * n := Nat.mul_lt_mul_of_lt_of_le h₀ h₁.le hn
  have hsquare : n * n ≤ f.shares ^ 2 := by
    rw [sq]
    exact Nat.mul_le_mul (Nat.not_lt.mp hge) (Nat.not_lt.mp hge)
  exact absurd (hsquare.trans hf) (Nat.not_le.mpr hlt)

end Backed

/-! ### The fee on growth -/

/-- Shares for one sixth of the growth of the root of the product from
`last` to `root`, rounded down. -/
def growthFee (shares root last : ℕ) : ℕ := shares * (root - last) / (root * 5 + last)

theorem growthFee_mul_le (shares root last : ℕ) :
    growthFee shares root last * (root * 5 + last) ≤ shares * (root - last) :=
  Nat.div_mul_le_self _ _

/-- The fee never mints beyond the root of the product, when the shares were
backed at the last root. -/
theorem add_growthFee_le {s root last : ℕ} (hs : s ≤ last) (hlt : last < root) :
    s + growthFee s root last ≤ root := by
  have hfee := growthFee_mul_le s root last
  obtain ⟨d, rfl⟩ : ∃ d, root = last + d := ⟨root - last, by omega⟩
  rw [Nat.add_sub_cancel_left] at hfee
  have hpos : 0 < (last + d) * 5 + last := by omega
  refine Nat.le_of_mul_le_mul_right ?_ hpos
  nlinarith [Nat.mul_le_mul_right d hs, Nat.mul_le_mul_right last hs]

theorem growthFee_eq_zero {root last : ℕ} (shares : ℕ) (h : root ≤ last) :
    growthFee shares root last = 0 := by
  rw [growthFee, Nat.sub_eq_zero_of_le h, Nat.mul_zero, Nat.zero_div]

/-- Of the shares afterwards the fee is at most one sixth of the growth. -/
theorem six_mul_growthFee_le (shares root last : ℕ) :
    6 * root * growthFee shares root last ≤
      (shares + growthFee shares root last) * (root - last) := by
  by_cases h : root ≤ last
  · rw [growthFee_eq_zero shares h, Nat.mul_zero]
    exact Nat.zero_le _
  · have hfee := growthFee_mul_le shares root last
    obtain ⟨d, rfl⟩ : ∃ d, root = last + d := ⟨root - last, by omega⟩
    rw [Nat.add_sub_cancel_left] at hfee ⊢
    nlinarith

/-- The fee takes no more than the growth: the root that belongs to a share does
not fall below the last one. -/
theorem add_growthFee_mul_le {root last : ℕ} (shares : ℕ) (h : last ≤ root) :
    (shares + growthFee shares root last) * last ≤ shares * root := by
  have hfee := growthFee_mul_le shares root last
  obtain ⟨d, rfl⟩ : ∃ d, root = last + d := ⟨root - last, by omega⟩
  rw [Nat.add_sub_cancel_left] at hfee
  nlinarith

/-- What a deposit is worth right after it: at most what was paid in. -/
theorem redeemed_le {r s a l : ℕ} (h : l * r ≤ a * s) : l * (r + a) / (s + l) ≤ a := by
  apply Nat.div_le_of_le_mul
  nlinarith

theorem Backed.add_growthFee {last : ℕ} (hf : f.Backed) (hlast : f.shares ^ 2 ≤ last) :
    Backed { f with
      shares := f.shares + growthFee f.shares (Nat.sqrt f.product) (Nat.sqrt last) } := by
  have hle : f.shares + growthFee f.shares (Nat.sqrt f.product) (Nat.sqrt last) ≤
      Nat.sqrt f.product := by
    by_cases hlt : Nat.sqrt last < Nat.sqrt f.product
    · exact add_growthFee_le (Nat.le_sqrt'.mpr hlast) hlt
    · have hzero : Nat.sqrt f.product - Nat.sqrt last = 0 := by omega
      simpa [growthFee, hzero] using hf.shares_le_sqrt
  exact (Nat.pow_le_pow_left hle 2).trans (Nat.sqrt_le' _)

end Fund
end EnergyChain
