import EnergyChain.Dex.Pair
import EnergyChain.Foundations.ShareFund

/-!
# What the functions of a pair do

One lemma for each internal function, read off a successful call, and the
facts on storage that hold between the functions: `Sound`, which every step
keeps, and `LastBacked` for the product recorded at the last liquidity event.
-/

namespace EnergyChain.Dex

/-- The reserves with the liquidity in circulation. -/
def PairStorage.fund (p : PairStorage) : Fund := ⟨p.reserve0, p.reserve1, p.totalSupply⟩

variable {p p' : PairStorage} {t t' : ERC20} {factory : FeeSetting} {feeOn : Bool}
  {block : Block} {dst src a : Address} {r₀ r₁ b₀ b₁ a₀ a₁ l v : ℕ}

/-! ### Storage -/

/-- The facts that hold of the storage also inside a call. -/
structure Sound (p : PairStorage) : Prop where
  conserved : p.Conserved
  unapproved : p.Unapproved .zero
  minimum : p.totalSupply = 0 ∨ minimumLiquidity ≤ p.balanceOf .zero
  backed : p.fund.Backed
  bounded0 : p.reserve0 < 2 ^ 112
  bounded1 : p.reserve1 < 2 ^ 112

/-- The supply was backed at the product of the last liquidity event. -/
structure LastBacked (p : PairStorage) : Prop where
  lt : p.kLast < uint256Size
  backed : p.kLast ≠ 0 → p.totalSupply ^ 2 ≤ p.kLast

namespace Sound

theorem totalSupply_lt (h : Sound p) : p.totalSupply < 2 ^ 112 :=
  h.backed.shares_lt h.bounded0 h.bounded1

theorem balanceOf_lt (h : Sound p) (a : Address) : p.balanceOf a < 2 ^ 112 :=
  (ERC20.balanceOf_le_totalSupply h.conserved a).trans_lt h.totalSupply_lt

theorem product_lt (h : Sound p) : p.reserve0 * p.reserve1 < uint256Size := by
  have hle : p.reserve0 * p.reserve1 ≤ 2 ^ 112 * 2 ^ 112 :=
    Nat.mul_le_mul h.bounded0.le h.bounded1.le
  exact hle.trans_lt (by norm_num [uint256Size])

theorem reserves_pos (h : Sound p) (hpos : 0 < p.totalSupply) :
    0 < p.reserve0 ∧ 0 < p.reserve1 := by
  have hproduct : 0 < p.reserve0 * p.reserve1 := h.backed.product_pos hpos
  exact ⟨Nat.pos_of_mul_pos_right hproduct, Nat.pos_of_mul_pos_left hproduct⟩

theorem withToken (h : Sound p) (hkeeps : ERC20.Keeps .zero p.toERC20 t)
    (hbacked : Fund.Backed ⟨p.reserve0, p.reserve1, t.totalSupply⟩)
    (hpos : p.totalSupply = 0 → t.totalSupply = 0) : Sound (p.withToken t) where
  conserved := hkeeps.conserved h.conserved
  unapproved := hkeeps.unapproved h.unapproved
  minimum := by
    rcases h.minimum with hzero | hmin
    · exact Or.inl (hpos hzero)
    · exact Or.inr (hmin.trans (hkeeps.balance h.unapproved))
  backed := hbacked
  bounded0 := h.bounded0
  bounded1 := h.bounded1

end Sound

/-! ### Tokens -/

theorem safeTransfer_ok (h : safeTransfer t src dst v = .ok t') : t.transfer src dst v = .ok t' := by
  unfold safeTransfer at h
  split at h
  · rwa [← h]
  · cases h

theorem sub_le_of_safeTransfer (h : safeTransfer t src dst v = .ok t') :
    v ≤ t.balanceOf src ∧ t.balanceOf src - v ≤ t'.balanceOf src := by
  obtain ⟨hle, -, rfl⟩ := ERC20.transfer_ok_iff.mp (safeTransfer_ok h)
  exact ⟨hle, Ledger.sub_le_move _ _ _ _⟩

theorem unapproved_of_safeTransfer (h : safeTransfer t src dst v = .ok t') (hu : t.Unapproved a) :
    t'.Unapproved a := by
  obtain ⟨-, -, rfl⟩ := ERC20.transfer_ok_iff.mp (safeTransfer_ok h)
  exact hu

/-! ### `_update` -/

section Update

variable {blockTimestamp : ℕ}

@[simp] theorem accumulatePrices_toERC20 :
    (accumulatePrices blockTimestamp r₀ r₁ p).toERC20 = p.toERC20 := by
  dsimp only [accumulatePrices]
  split_ifs <;> rfl

@[simp] theorem accumulatePrices_kLast :
    (accumulatePrices blockTimestamp r₀ r₁ p).kLast = p.kLast := by
  dsimp only [accumulatePrices]
  split_ifs <;> rfl

end Update

/-- `_update` stores the balances, which have 112 bits, and changes neither
the liquidity token nor `kLast`. -/
theorem update_ok (h : update block b₀ b₁ r₀ r₁ p = .ok p') :
    (b₀ < 2 ^ 112 ∧ b₁ < 2 ^ 112) ∧ (p'.reserve0 = b₀ ∧ p'.reserve1 = b₁) ∧
      p'.toERC20 = p.toERC20 ∧ p'.kLast = p.kLast := by
  simp only [update, except_bind_ok_iff, require_ok_iff, except_pure_ok_iff] at h
  obtain ⟨-, hbound, rfl⟩ := h
  exact ⟨by omega, ⟨rfl, rfl⟩, accumulatePrices_toERC20, accumulatePrices_kLast⟩

/-- With the liquidity token in order and backed by the balances, `_update`
leaves a sound storage. -/
theorem sound_of_update (hconserved : p.Conserved) (hunapproved : p.Unapproved .zero)
    (hminimum : p.totalSupply = 0 ∨ minimumLiquidity ≤ p.balanceOf .zero)
    (hbacked : Fund.Backed ⟨b₀, b₁, p.totalSupply⟩)
    (h : update block b₀ b₁ r₀ r₁ p = .ok p') : Sound p' := by
  obtain ⟨⟨hlt₀, hlt₁⟩, ⟨rfl, rfl⟩, htoken, -⟩ := update_ok h
  constructor
  · rw [htoken]
    exact hconserved
  · rw [htoken]
    exact hunapproved
  · rw [htoken]
    exact hminimum
  · rw [PairStorage.fund, htoken]
    exact hbacked
  · exact hlt₀
  · exact hlt₁

/-! ### `_mintFee` -/

theorem feeLiquidity_ok {s rootK rootKLast : ℕ} (h : feeLiquidity s rootK rootKLast = .ok l) :
    l = Fund.growthFee s rootK rootKLast := by
  simp only [feeLiquidity, except_bind_ok_iff, checkedSub_ok_iff, checkedMul_ok_iff,
    checkedAdd_ok_iff, checkedDiv_ok_iff] at h
  obtain ⟨_, ⟨-, rfl⟩, _, ⟨-, rfl⟩, _, ⟨-, rfl⟩, _, ⟨-, rfl⟩, -, rfl⟩ := h
  rfl

theorem mintPositive_ok (h : mintPositive dst l p = .ok p') :
    ∃ t, p' = p.withToken t ∧ t.totalSupply = p.totalSupply + l ∧
      ERC20.Grows p.toERC20 t := by
  unfold mintPositive at h
  split_ifs at h with hpos
  · simp only [except_bind_ok_iff, except_pure_ok_iff] at h
    obtain ⟨t, ht, rfl⟩ := h
    exact ⟨t, rfl, ERC20.mint_totalSupply ht, .mint ht⟩
  · have hzero : l = 0 := by omega
    subst hzero
    exact ⟨p.toERC20, (Except.ok.inj h).symm, rfl, .refl _⟩

theorem mintGrowthFee_ok (hlast : p.kLast < uint256Size)
    (h : mintGrowthFee dst r₀ r₁ p = .ok p') :
    ∃ t, p' = p.withToken t ∧
      t.totalSupply = p.totalSupply +
        Fund.growthFee p.totalSupply (Nat.sqrt (r₀ * r₁)) (Nat.sqrt p.kLast) ∧
      ERC20.Grows p.toERC20 t := by
  simp only [mintGrowthFee, except_bind_ok_iff, checkedMul_ok_iff, sqrt_eq hlast] at h
  obtain ⟨_, ⟨hk, rfl⟩, rootK, hroot, _, hrootLast, h⟩ := h
  obtain rfl := Except.ok.inj hrootLast
  obtain rfl := Except.ok.inj ((sqrt_eq hk).symm.trans hroot)
  split_ifs at h with hgrowth
  · rw [except_bind_ok_iff] at h
    obtain ⟨liquidity, hfee, hmint⟩ := h
    rw [← feeLiquidity_ok hfee]
    exact mintPositive_ok hmint
  · -- No growth, no fee.
    have hzero : Nat.sqrt (r₀ * r₁) - Nat.sqrt p.kLast = 0 := by omega
    refine ⟨p.toERC20, (Except.ok.inj h).symm, ?_, .refl _⟩
    simp [Fund.growthFee, hzero]

theorem mintFee_ok (h : mintFee factory r₀ r₁ p = .ok (feeOn, p')) :
    factory.feeTo ≠ .zero ∧ feeOn = true ∧
      (p' = p ∨ p.kLast ≠ 0 ∧ mintGrowthFee factory.feeTo r₀ r₁ p = .ok p') ∨
    factory.feeTo = .zero ∧ feeOn = false ∧ p' = { p with kLast := 0 } := by
  unfold mintFee at h
  split_ifs at h with hon hlast hlast
  · simp only [except_bind_ok_iff, except_pure_ok_iff, Prod.mk.injEq] at h
    obtain ⟨_, hmint, rfl, rfl⟩ := h
    exact Or.inl ⟨hon, rfl, Or.inr ⟨hlast, hmint⟩⟩
  · simp only [except_bind_ok_iff, except_pure_ok_iff, Prod.mk.injEq] at h
    obtain ⟨_, hmint, rfl, rfl⟩ := h
    exact Or.inl ⟨hon, rfl, Or.inl (Except.ok.inj hmint).symm⟩
  · obtain ⟨rfl, rfl⟩ := Prod.mk.inj (Except.ok.inj h)
    exact Or.inr ⟨not_not.mp hon, rfl, rfl⟩
  · obtain ⟨rfl, rfl⟩ := Prod.mk.inj (Except.ok.inj h)
    have hzero : p.kLast = 0 := not_not.mp hlast
    exact Or.inr ⟨not_not.mp hon, rfl, by rw [← hzero]⟩

/-- What the rest of `mint` and `burn` needs of `_mintFee`. -/
structure FeeMinted (factory : FeeSetting) (p p' : PairStorage) (feeOn : Bool) : Prop where
  sound : Sound p'
  reserve0 : p'.reserve0 = p.reserve0
  reserve1 : p'.reserve1 = p.reserve1
  grows : ERC20.Grows p.toERC20 p'.toERC20
  supply_le : p.totalSupply ≤ p'.totalSupply
  empty : p.totalSupply = 0 → p'.totalSupply = 0
  free : factory.feeTo = .zero → p'.totalSupply = p.totalSupply
  off : feeOn = false → p'.kLast = 0

theorem FeeMinted.fund_eq (h : FeeMinted factory p p' feeOn) (hfree : factory.feeTo = .zero) :
    p'.fund = p.fund := by
  rw [PairStorage.fund, h.reserve0, h.reserve1, h.free hfree, PairStorage.fund]

theorem feeMinted (hs : Sound p) (hl : LastBacked p)
    (h : mintFee factory p.reserve0 p.reserve1 p = .ok (feeOn, p')) :
    FeeMinted factory p p' feeOn := by
  rcases mintFee_ok h with ⟨hon, rfl, rfl | ⟨hlast, hmint⟩⟩ | ⟨hoff, rfl, rfl⟩
  · exact ⟨hs, rfl, rfl, .refl _, le_rfl, id, fun _ => rfl, nofun⟩
  · obtain ⟨t, rfl, hsupply, hgrows⟩ := mintGrowthFee_ok hl.lt hmint
    have hempty : p.totalSupply = 0 → t.totalSupply = 0 := by
      intro hzero
      simp [hsupply, hzero, Fund.growthFee]
    have hbacked : Fund.Backed ⟨p.reserve0, p.reserve1, t.totalSupply⟩ := by
      rw [hsupply]
      exact hs.backed.add_growthFee (hl.backed hlast)
    exact ⟨hs.withToken (hgrows.keeps _) hbacked hempty, rfl, rfl, hgrows,
      (Nat.le_add_right _ _).trans hsupply.ge, hempty, fun hfree => absurd hfree hon, nofun⟩
  · exact ⟨⟨hs.conserved, hs.unapproved, hs.minimum, hs.backed, hs.bounded0, hs.bounded1⟩, rfl,
      rfl, .refl _, le_rfl, id, fun _ => rfl, fun _ => rfl⟩

theorem recordK_ok (h : recordK feeOn p = .ok p') (hs : Sound p)
    (hoff : feeOn = false → p.kLast = 0) :
    Sound p' ∧ LastBacked p' ∧ p'.toERC20 = p.toERC20 ∧ p'.fund = p.fund := by
  unfold recordK at h
  split_ifs at h with hon
  · simp only [except_bind_ok_iff, checkedMul_ok_iff, except_pure_ok_iff] at h
    obtain ⟨_, ⟨hlt, rfl⟩, rfl⟩ := h
    exact ⟨⟨hs.conserved, hs.unapproved, hs.minimum, hs.backed, hs.bounded0, hs.bounded1⟩,
      ⟨hlt, fun _ => hs.backed⟩, rfl, rfl⟩
  · obtain rfl := Except.ok.inj h
    have hzero : p.kLast = 0 := hoff (by simpa using hon)
    refine ⟨hs, ⟨?_, fun hne => absurd hzero hne⟩, rfl, rfl⟩
    rw [hzero]
    norm_num [uint256Size]

theorem update_recordK_ok {p'' : PairStorage} (hconserved : p.Conserved)
    (hunapproved : p.Unapproved .zero) (hminimum : minimumLiquidity ≤ p.balanceOf .zero)
    (hbacked : Fund.Backed ⟨b₀, b₁, p.totalSupply⟩) (hoff : feeOn = false → p.kLast = 0)
    (hupdate : update block b₀ b₁ r₀ r₁ p = .ok p') (hrecord : recordK feeOn p' = .ok p'') :
    Sound p'' ∧ LastBacked p'' ∧ p''.toERC20 = p.toERC20 ∧
      p''.fund = ⟨b₀, b₁, p.totalSupply⟩ := by
  have hsound := sound_of_update hconserved hunapproved (Or.inr hminimum) hbacked hupdate
  obtain ⟨-, ⟨rfl, rfl⟩, htoken, hlast⟩ := update_ok hupdate
  have hoff' : feeOn = false → p'.kLast = 0 := fun h => hlast.trans (hoff h)
  obtain ⟨hsound', hlast', htoken', hfund⟩ := recordK_ok hrecord hsound hoff'
  refine ⟨hsound', hlast', htoken'.trans htoken, hfund.trans ?_⟩
  rw [PairStorage.fund, htoken]

/-! ### Liquidity -/

/-- The first mint gives at most the root of the product of the amounts, and
the zero address the minimum of it. -/
theorem mintLiquidity_first (hzero : p.totalSupply = 0)
    (h : mintLiquidity a₀ a₁ r₀ r₁ p = .ok (l, p')) :
    ∃ t, p.toERC20.mint .zero minimumLiquidity = .ok t ∧ p' = p.withToken t ∧
      minimumLiquidity + l = Nat.sqrt (a₀ * a₁) := by
  rw [mintLiquidity, if_pos hzero] at h
  simp only [except_bind_ok_iff, checkedMul_ok_iff, checkedSub_ok_iff, except_pure_ok_iff,
    Prod.mk.injEq] at h
  obtain ⟨_, ⟨hlt, rfl⟩, root, hroot, _, ⟨hle, rfl⟩, t, ht, rfl, rfl⟩ := h
  obtain rfl := Except.ok.inj ((sqrt_eq hlt).symm.trans hroot)
  exact ⟨t, ht, rfl, by omega⟩

/-- A later mint gives the smaller of the two proportional amounts. -/
theorem mintLiquidity_later (hpos : p.totalSupply ≠ 0)
    (h : mintLiquidity a₀ a₁ r₀ r₁ p = .ok (l, p')) :
    p' = p ∧ l * r₀ ≤ a₀ * p.totalSupply ∧ l * r₁ ≤ a₁ * p.totalSupply := by
  rw [mintLiquidity, if_neg hpos] at h
  simp only [except_bind_ok_iff, checkedMul_ok_iff, checkedDiv_ok_iff, except_pure_ok_iff,
    Prod.mk.injEq] at h
  obtain ⟨_, ⟨-, rfl⟩, _, ⟨-, rfl⟩, _, ⟨-, rfl⟩, _, ⟨-, rfl⟩, rfl, rfl⟩ := h
  refine ⟨rfl, ?_, ?_⟩
  · exact (Nat.mul_le_mul_right _ (min_le_left _ _)).trans (Nat.div_mul_le_self _ _)
  · exact (Nat.mul_le_mul_right _ (min_le_right _ _)).trans (Nat.div_mul_le_self _ _)

theorem mintLiquidity_effect (hs : Sound p)
    (h : mintLiquidity a₀ a₁ p.reserve0 p.reserve1 p = .ok (l, p')) :
    ∃ t, p' = p.withToken t ∧ ERC20.Grows p.toERC20 t ∧
      minimumLiquidity ≤ t.balanceOf .zero ∧
      Fund.Backed ⟨p.reserve0 + a₀, p.reserve1 + a₁, t.totalSupply + l⟩ ∧
      (0 < p.totalSupply →
        p.fund.NotDiluted ⟨p.reserve0 + a₀, p.reserve1 + a₁, t.totalSupply + l⟩) := by
  by_cases hzero : p.totalSupply = 0
  · obtain ⟨t, ht, rfl, hroot⟩ := mintLiquidity_first hzero h
    refine ⟨t, rfl, .mint ht, ?_, ?_, fun hpos => absurd hzero hpos.ne'⟩
    · obtain ⟨-, -, rfl⟩ := ERC20.mint_ok_iff.mp ht
      simp
    · obtain ⟨-, -, rfl⟩ := ERC20.mint_ok_iff.mp ht
      simp only [hzero, zero_add, hroot]
      calc Nat.sqrt (a₀ * a₁) ^ 2 ≤ a₀ * a₁ := Nat.sqrt_le' _
        _ ≤ (p.reserve0 + a₀) * (p.reserve1 + a₁) :=
          Nat.mul_le_mul (Nat.le_add_left _ _) (Nat.le_add_left _ _)
  · obtain ⟨rfl, hle₀, hle₁⟩ := mintLiquidity_later hzero h
    have hvalue : p'.fund.NotDiluted ⟨p'.reserve0 + a₀, p'.reserve1 + a₁, p'.totalSupply + l⟩ :=
      .deposit hle₀ hle₁
    exact ⟨p'.toERC20, rfl, .refl _, hs.minimum.resolve_left hzero,
      hvalue.backed hs.backed (Nat.pos_of_ne_zero hzero), fun _ => hvalue⟩

end EnergyChain.Dex
