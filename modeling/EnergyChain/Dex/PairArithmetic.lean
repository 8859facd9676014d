import EnergyChain.Dex.PairInvariant

/-!
# The arithmetic of a pair does not fail

In a settled state `_mintFee` succeeds, and while the token balances have 112
bits and liquidity is in circulation, `mint` and `burn` revert for a reason
they give and never for an overflow, an underflow or a division by zero.
-/

namespace EnergyChain.Dex

variable {pool : Pool} {w : World} {p p' : PairStorage} {t : ERC20} {factory : FeeSetting}
  {feeOn : Bool} {block : Block} {src dst : Address} {x y v b₀ b₁ r₀ r₁ a₀ a₁ l : ℕ}

theorem mul_lt_uint256 (hx : x < 2 ^ 112) (hy : y < 2 ^ 112) : x * y < uint256Size := by
  have hle : x * y ≤ 2 ^ 112 * 2 ^ 112 := Nat.mul_le_mul hx.le hy.le
  exact hle.trans_lt (by norm_num [uint256Size])

theorem add_lt_uint256 (hx : x < 2 ^ 112) (hy : y < 2 ^ 224) : x + y < uint256Size := by
  rw [uint256Size_eq]
  omega

theorem noPanic_mint (hsupply : t.totalSupply + v < uint256Size)
    (hbalance : t.balanceOf dst + v < uint256Size) : NoPanic (t.mint dst v) :=
  .of_eq_ok (ERC20.mint_ok_iff.mpr ⟨hsupply, hbalance, rfl⟩)

/-! ### The check of a swap -/

namespace Pool

theorem amountIn_ok {balance reserve amountOut : ℕ} (h : amountIn balance reserve amountOut = .ok v) :
    v = balance - (reserve - amountOut) := by
  simp only [amountIn, except_bind_ok_iff, checkedSub_ok_iff] at h
  obtain ⟨_, ⟨-, rfl⟩, h⟩ := h
  split_ifs at h with hlt
  · exact (checkedSub_ok_iff.mp h).2.symm
  · rw [← Except.ok.inj h]
    omega

theorem balanceAdjusted_ok {balance amount : ℕ} (h : balanceAdjusted balance amount = .ok v) :
    v = balance * 1000 - amount * 3 := by
  simp only [balanceAdjusted, except_bind_ok_iff, checkedMul_ok_iff, checkedSub_ok_iff] at h
  obtain ⟨_, ⟨-, rfl⟩, _, ⟨-, rfl⟩, -, rfl⟩ := h
  rfl

end Pool

/-! ### `_mintFee` -/

/-- The roots of `_mintFee` leave room for its products. -/
theorem feeLiquidity_eq {s root last : ℕ} (hs : s < 2 ^ 112) (hroot : root < 2 ^ 112)
    (hlt : last < root) : feeLiquidity s root last = .ok (Fund.growthFee s root last) := by
  have hproduct : s * (root - last) < uint256Size := mul_lt_uint256 hs (by omega)
  have hfive : root * 5 < uint256Size := mul_lt_uint256 hroot (by norm_num)
  have hsum : root * 5 + last < uint256Size := by
    rw [uint256Size_eq]
    omega
  have hne : root * 5 + last ≠ 0 := by omega
  simp only [feeLiquidity, checkedSub_eq hlt.le, checkedMul_eq hproduct, checkedMul_eq hfive,
    checkedAdd_eq hsum, checkedDiv_eq hne, except_ok_bind, Fund.growthFee]

theorem mintGrowthFee_succeeds (hs : Sound p) (hl : LastBacked p) (hlast : p.kLast ≠ 0)
    (dst : Address) : ∃ p', mintGrowthFee dst p.reserve0 p.reserve1 p = .ok p' := by
  have hk := hs.product_lt
  have hroot : Nat.sqrt (p.reserve0 * p.reserve1) < 2 ^ 112 := by
    rw [Nat.sqrt_lt]
    exact Nat.mul_lt_mul'' hs.bounded0 hs.bounded1
  simp only [mintGrowthFee, checkedMul_eq hk, sqrt_eq hk, sqrt_eq hl.lt, except_ok_bind]
  split_ifs with hgrowth
  · have hle : p.totalSupply + Fund.growthFee p.totalSupply _ _ ≤ _ :=
      Fund.add_growthFee_le (Nat.le_sqrt'.mpr (hl.backed hlast)) hgrowth
    have hbalance := ERC20.balanceOf_le_totalSupply hs.conserved dst
    rw [feeLiquidity_eq hs.totalSupply_lt hroot hgrowth, except_ok_bind, mintPositive]
    split_ifs with hpos
    · have hmint := ERC20.mint_ok_iff.mpr ⟨hle.trans_lt (hroot.trans (by decide)),
        (Nat.add_le_add_right hbalance _).trans_lt (hle.trans_lt (hroot.trans (by decide))), rfl⟩
      rw [hmint]
      exact ⟨_, rfl⟩
    · exact ⟨_, rfl⟩
  · exact ⟨_, rfl⟩

theorem mintFee_succeeds (hs : Sound p) (hl : LastBacked p) (factory : FeeSetting) :
    ∃ r, mintFee factory p.reserve0 p.reserve1 p = .ok r := by
  unfold mintFee
  split_ifs with hon hlast
  · obtain ⟨p', h⟩ := mintGrowthFee_succeeds hs hl hlast factory.feeTo
    rw [h]
    exact ⟨_, rfl⟩
  all_goals exact ⟨_, rfl⟩

/-! ### The end of `mint` and `burn` -/

theorem noPanic_update : NoPanic (update block b₀ b₁ r₀ r₁ p) :=
  .bind (.require _ _) fun _ _ => .pure _

theorem noPanic_recordK (hupdate : update block b₀ b₁ r₀ r₁ p = .ok p') :
    NoPanic (recordK feeOn p') := by
  obtain ⟨⟨hlt₀, hlt₁⟩, ⟨rfl, rfl⟩, -⟩ := update_ok hupdate
  unfold recordK
  split_ifs
  · exact .bind (.of_eq_ok (checkedMul_eq (mul_lt_uint256 hlt₀ hlt₁))) fun _ _ => .pure _
  · exact .ok _

theorem noPanic_safeTransfer : NoPanic (safeTransfer t src dst v) := by
  unfold safeTransfer
  split
  · exact .ok _
  · exact .error _

theorem noPanic_lock {α : Type} {body : World → Except Revert (α × World)}
    (h : NoPanic (body (w.setUnlocked 0))) : NoPanic (lock body w) :=
  .bind (.require _ _) fun _ _ => .bind h fun _ _ => .pure _

/-! ### `mint` and `burn` -/

/-- A state in which the arithmetic of `mint` and `burn` has room. -/
structure Active (pool : Pool) (w : World) : Prop extends Settled pool w where
  supply_pos : 0 < w.pair.totalSupply
  balance0_lt : pool.balance0 w < 2 ^ 112
  balance1_lt : pool.balance1 w < 2 ^ 112

theorem Active.setUnlocked (h : Active pool w) (n : ℕ) : Active pool (w.setUnlocked n) :=
  ⟨h.toSettled.setUnlocked n, h.supply_pos, h.balance0_lt, h.balance1_lt⟩

theorem noPanic_mintLiquidity (hs : Sound p) (hpos : 0 < p.totalSupply) (ha₀ : a₀ < 2 ^ 112)
    (ha₁ : a₁ < 2 ^ 112) : NoPanic (mintLiquidity a₀ a₁ p.reserve0 p.reserve1 p) := by
  obtain ⟨hr₀, hr₁⟩ := hs.reserves_pos hpos
  have hsupply := hs.totalSupply_lt
  rw [mintLiquidity, if_neg hpos.ne', checkedMul_eq (mul_lt_uint256 ha₀ hsupply), except_ok_bind,
    checkedDiv_eq hr₀.ne', except_ok_bind, checkedMul_eq (mul_lt_uint256 ha₁ hsupply),
    except_ok_bind, checkedDiv_eq hr₁.ne', except_ok_bind]
  exact .pure _

theorem noPanic_poolMint (hw : Active pool w) (block : Block) (dst : Address) :
    NoPanic (pool.mint block dst w) := by
  refine noPanic_lock ?_
  replace hw := hw.setUnlocked 0
  generalize w.setUnlocked 0 = w at hw
  have hb₀ := hw.balance0_lt
  have hb₁ := hw.balance1_lt
  dsimp only
  refine .bind (.of_eq_ok (checkedSub_eq hw.covered0)) fun a₀ ha₀ => ?_
  refine .bind (.of_eq_ok (checkedSub_eq hw.covered1)) fun a₁ ha₁ => ?_
  rw [checkedSub_ok_iff] at ha₀ ha₁
  obtain ⟨⟨feeOn, p₁⟩, hfee⟩ := mintFee_succeeds hw.sound hw.last w.factory
  have hminted := feeMinted hw.sound hw.last hfee
  have hsupply := hminted.sound.totalSupply_lt
  have hpos : 0 < p₁.totalSupply := hw.supply_pos.trans_le hminted.supply_le
  rw [hfee, except_ok_bind]
  dsimp only
  rw [← hminted.reserve0, ← hminted.reserve1]
  refine .bind (noPanic_mintLiquidity hminted.sound hpos (by omega) (by omega)) ?_
  rintro ⟨l, p₂⟩ hliquidity
  obtain ⟨rfl, hl, -⟩ := mintLiquidity_later hpos.ne' hliquidity
  -- The liquidity has 224 bits, since the reserve is positive.
  have hl' : l < 2 ^ 224 := by
    have hr₀ := (hminted.sound.reserves_pos hpos).1
    have hproduct : a₀ * p₂.totalSupply ≤ 2 ^ 112 * p₂.totalSupply := Nat.mul_le_mul_right _ (by omega)
    nlinarith
  refine .bind (.require _ _) fun _ _ => ?_
  refine .bind (noPanic_mint (add_lt_uint256 hsupply hl')
    (add_lt_uint256 (hminted.sound.balanceOf_lt dst) hl')) fun t _ => ?_
  exact .bind noPanic_update fun p₃ hupdate => .bind (noPanic_recordK hupdate) fun _ _ => .pure _

theorem noPanic_poolBurn (hw : Active pool w) (block : Block) (dst : Address) :
    NoPanic (pool.burn block dst w) := by
  refine noPanic_lock ?_
  replace hw := hw.setUnlocked 0
  generalize w.setUnlocked 0 = w at hw
  dsimp only
  obtain ⟨⟨feeOn, p₁⟩, hfee⟩ := mintFee_succeeds hw.sound hw.last w.factory
  have hminted := feeMinted hw.sound hw.last hfee
  have hne : p₁.totalSupply ≠ 0 := (hw.supply_pos.trans_le hminted.supply_le).ne'
  have hliquidity := hw.sound.balanceOf_lt pool.pair
  have hburnt : w.pair.balanceOf pool.pair ≤ p₁.balanceOf pool.pair :=
    hminted.grows.balance pool.pair
  rw [hfee, except_ok_bind]
  dsimp only
  rw [checkedMul_eq (mul_lt_uint256 hliquidity hw.balance0_lt), except_ok_bind, checkedDiv_eq hne,
    except_ok_bind, checkedMul_eq (mul_lt_uint256 hliquidity hw.balance1_lt), except_ok_bind,
    checkedDiv_eq hne, except_ok_bind]
  refine .bind (.require _ _) fun _ _ => ?_
  have hsupply := ERC20.balanceOf_le_totalSupply hminted.sound.conserved pool.pair
  rw [ERC20.burn_ok_iff.mpr ⟨hburnt, hburnt.trans hsupply, rfl⟩, except_ok_bind]
  refine .bind noPanic_safeTransfer fun token0 _ => .bind noPanic_safeTransfer fun token1 _ => ?_
  exact .bind noPanic_update fun p₃ hupdate => .bind (noPanic_recordK hupdate) fun _ _ => .pure _

end EnergyChain.Dex
