import EnergyChain.Dex.PairArithmetic
import EnergyChain.Foundations.ConstantProduct

/-!
# What a pair moves

The balances after a successful call of a pair: a mint moves neither token, a burn
and a swap without a callback pay out exactly the amounts. A swap is then described
exactly: which ones succeed, and what reserves they leave.
-/

namespace EnergyChain.Dex

variable {pool : Pool} {w w' : World} {block : Block} {dst a : Address} {p p' : PairStorage}
  {t t' : ERC20} {factory : FeeSetting} {feeOn : Bool} {r₀ r₁ a₀ a₁ l v : ℕ}

/-! ### Payments -/

theorem safeTransfer_moves {src : Address} (h : safeTransfer t src dst v = .ok t') :
    v ≤ t.balanceOf src ∧ t'.balanceOf = Ledger.move t.balanceOf src dst v := by
  obtain ⟨hle, -, rfl⟩ := ERC20.transfer_ok_iff.mp (safeTransfer_ok h)
  exact ⟨hle, rfl⟩

namespace Pool

theorem payOut_moves (h : pool.payOut t dst v = .ok t') :
    v ≤ t.balanceOf pool.pair ∧ t'.balanceOf = Ledger.move t.balanceOf pool.pair dst v := by
  unfold payOut at h
  split_ifs at h with hpos
  · exact safeTransfer_moves h
  · obtain rfl := Except.ok.inj h
    have hzero : v = 0 := by omega
    simp [hzero]

theorem payOut_succeeds (hle : v ≤ t.balanceOf pool.pair) (hne : pool.pair ≠ dst)
    (htotal : Ledger.total t.balanceOf < uint256Size) : ∃ t', pool.payOut t dst v = .ok t' := by
  unfold payOut
  split_ifs
  · have hroom : Ledger.debit t.balanceOf pool.pair v dst + v < uint256Size := by
      have hpair := Ledger.add_le_total (f := t.balanceOf) hne
      rw [Ledger.debit_of_ne hne.symm]
      omega
    exact ⟨_, by rw [safeTransfer, ERC20.transfer_ok_iff.mpr ⟨hle, hroom, rfl⟩]⟩
  · exact ⟨t, rfl⟩

end Pool

/-! ### Liquidity -/

theorem mint_balanceOf (h : t.mint dst v = .ok t') (hne : a ≠ dst) :
    t'.balanceOf a = t.balanceOf a := by
  obtain ⟨-, -, rfl⟩ := ERC20.mint_ok_iff.mp h
  exact Ledger.credit_of_ne hne

theorem burn_balanceOf {src : Address} (h : t.burn src v = .ok t') (hne : a ≠ src) :
    t'.balanceOf a = t.balanceOf a := by
  obtain ⟨-, -, rfl⟩ := ERC20.burn_ok_iff.mp h
  exact Ledger.debit_of_ne hne

theorem mintGrowthFee_balanceOf (h : mintGrowthFee dst r₀ r₁ p = .ok p') (hne : a ≠ dst) :
    p'.balanceOf a = p.balanceOf a := by
  simp only [mintGrowthFee, except_bind_ok_iff] at h
  obtain ⟨_, -, rootK, -, rootKLast, -, h⟩ := h
  split_ifs at h
  · rw [except_bind_ok_iff] at h
    obtain ⟨liquidity, -, h⟩ := h
    unfold mintPositive at h
    split_ifs at h
    · simp only [except_bind_ok_iff, except_pure_ok_iff] at h
      obtain ⟨t, hmint, rfl⟩ := h
      exact mint_balanceOf hmint hne
    · rw [Except.ok.inj h]
  · rw [Except.ok.inj h]

theorem mintFee_balanceOf (h : mintFee factory r₀ r₁ p = .ok (feeOn, p')) (hne : a ≠ factory.feeTo) :
    p'.balanceOf a = p.balanceOf a := by
  rcases mintFee_ok h with ⟨-, -, rfl | ⟨-, hmint⟩⟩ | ⟨-, -, rfl⟩
  · rfl
  · exact mintGrowthFee_balanceOf hmint hne
  · rfl

theorem mintLiquidity_balanceOf (h : mintLiquidity a₀ a₁ r₀ r₁ p = .ok (l, p')) (hne : a ≠ .zero) :
    p'.balanceOf a = p.balanceOf a := by
  by_cases hzero : p.totalSupply = 0
  · rw [mintLiquidity, if_pos hzero] at h
    simp only [except_bind_ok_iff, except_pure_ok_iff, Prod.mk.injEq] at h
    obtain ⟨_, -, _, -, _, -, t, hmint, -, rfl⟩ := h
    exact mint_balanceOf hmint hne
  · rw [(mintLiquidity_later hzero h).1]

theorem recordK_keeps (h : recordK feeOn p = .ok p') :
    p'.toERC20 = p.toERC20 ∧ p'.reserve0 = p.reserve0 ∧ p'.reserve1 = p.reserve1 := by
  unfold recordK at h
  split_ifs at h
  · simp only [except_bind_ok_iff, except_pure_ok_iff] at h
    obtain ⟨_, -, rfl⟩ := h
    exact ⟨rfl, rfl, rfl⟩
  · rw [Except.ok.inj h]
    exact ⟨rfl, rfl, rfl⟩

theorem permit_balanceOf {keccak256 : Bytes → Bytes} {ecrecover : Bytes → Signature → Address}
    {m : PermitMessage} {signature : Signature}
    (h : p.permit keccak256 ecrecover block m signature = .ok p') : p'.balanceOf = p.balanceOf := by
  simp only [PairStorage.permit, except_bind_ok_iff, except_pure_ok_iff] at h
  obtain ⟨-, -, _, -, -, -, rfl⟩ := h
  rfl

namespace Pool

/-- A mint moves neither token, and gives liquidity to the recipient, the zero
address and `feeTo` only. -/
theorem mint_moves (h : pool.mint block dst w = .ok (l, w')) :
    w'.token0 = w.token0 ∧ w'.token1 = w.token1 ∧ ∀ a, a ≠ dst → a ≠ .zero →
      a ≠ w.factory.feeTo → w'.pair.balanceOf a = w.pair.balanceOf a := by
  obtain ⟨-, w₁, hbody, rfl⟩ := lock_ok h
  dsimp only at hbody
  simp only [except_bind_ok_iff, except_pure_ok_iff, Prod.mk.injEq] at hbody
  obtain ⟨_, -, _, -, ⟨feeOn, p₁⟩, hfee, ⟨l, p₂⟩, hliquidity, -, -, t, hmint, p₃, hupdate, p₄,
    hrecord, rfl, rfl⟩ := hbody
  dsimp only at hmint hupdate hrecord
  refine ⟨rfl, rfl, fun a hdst hzero hfeeTo => ?_⟩
  have hminted := mint_balanceOf hmint hdst
  have hfirst := mintLiquidity_balanceOf hliquidity hzero
  have hcharged := mintFee_balanceOf hfee hfeeTo
  have hstored := (recordK_keeps hrecord).1.trans (update_ok hupdate).2.2.1
  change p₄.toERC20.balanceOf a = w.pair.balanceOf a
  rw [hstored]
  exact hminted.trans (hfirst.trans hcharged)

theorem burn_moves (h : pool.burn block dst w = .ok ((a₀, a₁), w')) :
    (a₀ ≤ w.token0.balanceOf pool.pair ∧
      w'.token0.balanceOf = Ledger.move w.token0.balanceOf pool.pair dst a₀) ∧
    (a₁ ≤ w.token1.balanceOf pool.pair ∧
      w'.token1.balanceOf = Ledger.move w.token1.balanceOf pool.pair dst a₁) ∧
    ∀ a, a ≠ pool.pair → a ≠ w.factory.feeTo → w'.pair.balanceOf a = w.pair.balanceOf a := by
  obtain ⟨-, w₁, hbody, rfl⟩ := lock_ok h
  dsimp only at hbody
  simp only [except_bind_ok_iff, except_pure_ok_iff, Prod.mk.injEq] at hbody
  obtain ⟨⟨feeOn, p₁⟩, hfee, _, -, _, -, _, -, _, -, -, -, t, hburn, token0, hsent₀, token1, hsent₁,
    p₂, hupdate, p₃, hrecord, ⟨rfl, rfl⟩, rfl⟩ := hbody
  dsimp only at hburn hupdate hrecord
  refine ⟨safeTransfer_moves hsent₀, safeTransfer_moves hsent₁, fun a hpair hfeeTo => ?_⟩
  have hburnt := burn_balanceOf hburn hpair
  have hcharged := mintFee_balanceOf hfee hfeeTo
  have hstored := (recordK_keeps hrecord).1.trans (update_ok hupdate).2.2.1
  change p₃.toERC20.balanceOf a = w.pair.balanceOf a
  rw [hstored]
  exact hburnt.trans hcharged

/-! ### Swaps without a callback -/

section Swap

variable {o₀ o₁ balance reserve amountOut : ℕ} {callee : World → Except Revert World}

/-- What a swap leaves: both outputs paid, the reserves set to the balances, and
the liquidity as it was. -/
structure Swapped (pool : Pool) (dst : Address) (o₀ o₁ : ℕ) (w w' : World) : Prop where
  paid0 : pool.payOut w.token0 dst o₀ = .ok w'.token0
  paid1 : pool.payOut w.token1 dst o₁ = .ok w'.token1
  reserve0 : w'.pair.reserve0 = pool.balance0 w'
  reserve1 : w'.pair.reserve1 = pool.balance1 w'
  bounded0 : pool.balance0 w' < 2 ^ 112
  bounded1 : pool.balance1 w' < 2 ^ 112
  liquidity : w'.pair.toERC20 = w.pair.toERC20
  unlocked : w'.pair.unlocked = 1

theorem swap_moves (h : pool.swap block o₀ o₁ dst [] callee w = .ok ((), w')) :
    Swapped pool dst o₀ o₁ w w' := by
  obtain ⟨-, w₁, hbody, rfl⟩ := lock_ok h
  dsimp only at hbody
  simp only [call, List.length_nil, gt_iff_lt, lt_irrefl, if_false, except_bind_ok_iff,
    except_pure_ok_iff, Prod.mk.injEq, true_and] at hbody
  obtain ⟨-, -, -, -, -, -, token0, hpaid₀, token1, hpaid₁, w₂, hw₂, _, -, _, -, -, -, _, -, _, -,
    _, -, _, -, _, -, -, -, p, hupdate, rfl⟩ := hbody
  obtain rfl := Except.ok.inj hw₂
  obtain ⟨⟨hlt₀, hlt₁⟩, ⟨hreserve₀, hreserve₁⟩, htoken, -⟩ := update_ok hupdate
  exact ⟨hpaid₀, hpaid₁, hreserve₀, hreserve₁, hlt₀, hlt₁, htoken, rfl⟩

theorem update_succeeds {b₀ b₁ : ℕ} (h₀ : b₀ < 2 ^ 112) (h₁ : b₁ < 2 ^ 112) :
    ∃ p', update block b₀ b₁ r₀ r₁ p = .ok p' := by
  simp only [update, except_bind_ok_iff, require_ok_iff, except_pure_ok_iff]
  exact ⟨_, (), by omega, rfl⟩

theorem amountIn_eq (h : amountOut ≤ reserve) :
    amountIn balance reserve amountOut = .ok (balance - (reserve - amountOut)) := by
  rw [amountIn, checkedSub_eq h, except_ok_bind]
  split_ifs with hlt
  · exact checkedSub_eq hlt.le
  · rw [Nat.sub_eq_zero_of_le (Nat.not_lt.mp hlt)]

theorem balanceAdjusted_eq {amount : ℕ} (hlt : balance < 2 ^ 112) (hle : amount ≤ balance) :
    balanceAdjusted balance amount = .ok (balance * 1000 - amount * 3) := by
  rw [balanceAdjusted, checkedMul_eq (mul_lt_uint256 hlt (by norm_num)), except_ok_bind,
    checkedMul_eq (mul_lt_uint256 (hle.trans_lt hlt) (by norm_num)), except_ok_bind]
  exact checkedSub_eq (by omega)

theorem swap_keeps_product (h : pool.swap block o₀ o₁ dst [] callee w = .ok ((), w')) :
    w.pair.reserve0 * w.pair.reserve1 * 1000 ^ 2 ≤
      (pool.balance0 w' * 1000 - (pool.balance0 w' - (w.pair.reserve0 - o₀)) * 3) *
      (pool.balance1 w' * 1000 - (pool.balance1 w' - (w.pair.reserve1 - o₁)) * 3) := by
  obtain ⟨-, w₁, hbody, rfl⟩ := lock_ok h
  dsimp only at hbody
  simp only [call, List.length_nil, gt_iff_lt, lt_irrefl, if_false, except_bind_ok_iff,
    except_pure_ok_iff, Prod.mk.injEq, true_and] at hbody
  obtain ⟨-, -, -, -, -, -, token0, -, token1, -, w₂, hw₂, _, hin₀, _, hin₁, -, -, _, hadjusted₀, _,
    hadjusted₁, _, hleft, _, hproduct, _, hright, _, hK, p, -, rfl⟩ := hbody
  obtain rfl := Except.ok.inj hw₂
  obtain ⟨-, rfl⟩ := checkedMul_ok_iff.mp hleft
  obtain ⟨-, rfl⟩ := checkedMul_ok_iff.mp hproduct
  obtain ⟨-, rfl⟩ := checkedMul_ok_iff.mp hright
  rw [balanceAdjusted_ok hadjusted₀, balanceAdjusted_ok hadjusted₁, amountIn_ok hin₀,
    amountIn_ok hin₁] at hK
  exact require_ok_iff.mp hK

/-- A swap at bounded balances succeeds when something came in and the adjusted
product is kept. -/
theorem swap_succeeds {token0 token1 : ERC20} (hopen : w.pair.unlocked = 1)
    (hout : 0 < o₀ ∨ 0 < o₁) (hlt₀ : o₀ < w.pair.reserve0) (hlt₁ : o₁ < w.pair.reserve1)
    (hreserve₀ : w.pair.reserve0 < 2 ^ 112) (hreserve₁ : w.pair.reserve1 < 2 ^ 112)
    (hdst : dst ≠ pool.token0 ∧ dst ≠ pool.token1)
    (hpaid₀ : pool.payOut w.token0 dst o₀ = .ok token0)
    (hpaid₁ : pool.payOut w.token1 dst o₁ = .ok token1)
    (hbalance₀ : token0.balanceOf pool.pair < 2 ^ 112)
    (hbalance₁ : token1.balanceOf pool.pair < 2 ^ 112)
    (hin : 0 < token0.balanceOf pool.pair - (w.pair.reserve0 - o₀) ∨
      0 < token1.balanceOf pool.pair - (w.pair.reserve1 - o₁))
    (hK : w.pair.reserve0 * w.pair.reserve1 * 1000 ^ 2 ≤
      (token0.balanceOf pool.pair * 1000 -
        (token0.balanceOf pool.pair - (w.pair.reserve0 - o₀)) * 3) *
      (token1.balanceOf pool.pair * 1000 -
        (token1.balanceOf pool.pair - (w.pair.reserve1 - o₁)) * 3)) :
    ∃ w', pool.swap block o₀ o₁ dst [] callee w = .ok ((), w') := by
  obtain ⟨p, hupdate⟩ : ∃ p, update block (token0.balanceOf pool.pair) (token1.balanceOf pool.pair)
      w.pair.reserve0 w.pair.reserve1 { w.pair with unlocked := 0 } = .ok p :=
    update_succeeds hbalance₀ hbalance₁
  have hproduct := mul_lt_uint256 hreserve₀ hreserve₁
  have hrequired : w.pair.reserve0 * w.pair.reserve1 * 1000 ^ 2 < uint256Size := by
    have hle : w.pair.reserve0 * w.pair.reserve1 ≤ 2 ^ 112 * 2 ^ 112 :=
      Nat.mul_le_mul hreserve₀.le hreserve₁.le
    exact (Nat.mul_le_mul_right _ hle).trans_lt (by norm_num [uint256Size])
  have hadjusted : (token0.balanceOf pool.pair * 1000 -
        (token0.balanceOf pool.pair - (w.pair.reserve0 - o₀)) * 3) *
      (token1.balanceOf pool.pair * 1000 -
        (token1.balanceOf pool.pair - (w.pair.reserve1 - o₁)) * 3) < uint256Size := by
    have hle := Nat.mul_le_mul
      ((Nat.sub_le _ ((token0.balanceOf pool.pair - (w.pair.reserve0 - o₀)) * 3)).trans
        (Nat.mul_le_mul_right 1000 hbalance₀.le))
      ((Nat.sub_le _ ((token1.balanceOf pool.pair - (w.pair.reserve1 - o₁)) * 3)).trans
        (Nat.mul_le_mul_right 1000 hbalance₁.le))
    exact hle.trans_lt (by norm_num [uint256Size])
  refine ⟨({ w with pair := p, token0, token1 } : World).setUnlocked 1, ?_⟩
  simp only [swap, lock, World.withPair, call, List.length_nil, gt_iff_lt, lt_irrefl, if_false,
    except_bind_ok_iff, require_ok_iff, except_pure_ok_iff, balance0, balance1]
  refine ⟨(), hopen, _, ⟨(), hout, (), require_ok_iff.mpr ⟨hlt₀, hlt₁⟩, (), hdst, token0, hpaid₀,
    token1, hpaid₁, _, rfl, _, amountIn_eq hlt₀.le, _, amountIn_eq hlt₁.le, (), hin, _,
    balanceAdjusted_eq hbalance₀ (Nat.sub_le _ _), _, balanceAdjusted_eq hbalance₁ (Nat.sub_le _ _),
    _, checkedMul_eq hadjusted, _, checkedMul_eq hproduct, _, checkedMul_eq hrequired, (), hK, p,
    hupdate, rfl⟩, rfl⟩

theorem swap_second_succeeds {x y : ℕ} {token1 : ERC20} (hopen : w.pair.unlocked = 1)
    (hx : 0 < x) (hy : 0 < y) (hr : 0 < w.pair.reserve0) (hys : y < w.pair.reserve1)
    (hdst : dst ≠ pool.token0 ∧ dst ≠ pool.token1)
    (hin : w.token0.balanceOf pool.pair = w.pair.reserve0 + x)
    (hpaid : pool.payOut w.token1 dst y = .ok token1)
    (hleft : token1.balanceOf pool.pair = w.pair.reserve1 - y)
    (hlt₀ : w.pair.reserve0 + x < 2 ^ 112) (hlt₁ : w.pair.reserve1 < 2 ^ 112)
    (hK : w.pair.reserve0 * w.pair.reserve1 * 1000 ^ 2 ≤
      ((w.pair.reserve0 + x) * 1000 - x * 3) * ((w.pair.reserve1 - y) * 1000)) :
    ∃ w', pool.swap block 0 y dst [] callee w = .ok ((), w') := by
  apply pool.swap_succeeds hopen (Or.inr hy) hr hys (by omega) hlt₁ hdst rfl hpaid
  · omega
  · omega
  · exact Or.inl (by omega)
  · rw [hin, hleft, Nat.sub_zero, Nat.add_sub_cancel_left, Nat.sub_self, Nat.zero_mul, Nat.sub_zero]
    exact hK

theorem swap_first_succeeds {x y : ℕ} {token0 : ERC20} (hopen : w.pair.unlocked = 1)
    (hx : 0 < x) (hy : 0 < y) (hr : 0 < w.pair.reserve1) (hys : y < w.pair.reserve0)
    (hdst : dst ≠ pool.token0 ∧ dst ≠ pool.token1)
    (hin : w.token1.balanceOf pool.pair = w.pair.reserve1 + x)
    (hpaid : pool.payOut w.token0 dst y = .ok token0)
    (hleft : token0.balanceOf pool.pair = w.pair.reserve0 - y)
    (hlt₁ : w.pair.reserve1 + x < 2 ^ 112) (hlt₀ : w.pair.reserve0 < 2 ^ 112)
    (hK : w.pair.reserve1 * w.pair.reserve0 * 1000 ^ 2 ≤
      ((w.pair.reserve1 + x) * 1000 - x * 3) * ((w.pair.reserve0 - y) * 1000)) :
    ∃ w', pool.swap block y 0 dst [] callee w = .ok ((), w') := by
  apply pool.swap_succeeds hopen (Or.inl hy) hys hr hlt₀ (by omega) hdst hpaid rfl
  · omega
  · omega
  · exact Or.inr (by omega)
  · rw [hin, hleft, Nat.sub_zero, Nat.add_sub_cancel_left, Nat.sub_self, Nat.zero_mul, Nat.sub_zero,
      Nat.mul_comm w.pair.reserve0, Nat.mul_comm ((w.pair.reserve0 - y) * 1000)]
    exact hK

theorem swap_second_kept {x y : ℕ} (hne : dst ≠ pool.pair)
    (hin : w.token0.balanceOf pool.pair = w.pair.reserve0 + x)
    (hout : w.token1.balanceOf pool.pair = w.pair.reserve1)
    (h : pool.swap block 0 y dst [] callee w = .ok ((), w')) :
    w.pair.reserve0 * w.pair.reserve1 * 1000 ^ 2 ≤
      ((w.pair.reserve0 + x) * 1000 - x * 3) * ((w.pair.reserve1 - y) * 1000) := by
  have hswapped := pool.swap_moves h
  have hK := pool.swap_keeps_product h
  have hbalance₀ : pool.balance0 w' = w.pair.reserve0 + x := by
    rw [balance0, (pool.payOut_moves hswapped.paid0).2, Ledger.move_zero, hin]
  have hbalance₁ : pool.balance1 w' = w.pair.reserve1 - y := by
    rw [balance1, (pool.payOut_moves hswapped.paid1).2, Ledger.move_source hne.symm, hout]
  rwa [hbalance₀, hbalance₁, Nat.sub_zero, Nat.add_sub_cancel_left, Nat.sub_self, Nat.zero_mul,
    Nat.sub_zero] at hK

theorem swap_first_kept {x y : ℕ} (hne : dst ≠ pool.pair)
    (hin : w.token1.balanceOf pool.pair = w.pair.reserve1 + x)
    (hout : w.token0.balanceOf pool.pair = w.pair.reserve0)
    (h : pool.swap block y 0 dst [] callee w = .ok ((), w')) :
    w.pair.reserve1 * w.pair.reserve0 * 1000 ^ 2 ≤
      ((w.pair.reserve1 + x) * 1000 - x * 3) * ((w.pair.reserve0 - y) * 1000) := by
  have hswapped := pool.swap_moves h
  have hK := pool.swap_keeps_product h
  have hbalance₁ : pool.balance1 w' = w.pair.reserve1 + x := by
    rw [balance1, (pool.payOut_moves hswapped.paid1).2, Ledger.move_zero, hin]
  have hbalance₀ : pool.balance0 w' = w.pair.reserve0 - y := by
    rw [balance0, (pool.payOut_moves hswapped.paid0).2, Ledger.move_source hne.symm, hout]
  rwa [hbalance₀, hbalance₁, Nat.sub_zero, Nat.add_sub_cancel_left, Nat.sub_self, Nat.zero_mul,
    Nat.sub_zero, Nat.mul_comm w.pair.reserve0, Nat.mul_comm ((w.pair.reserve0 - y) * 1000)] at hK

end Swap

end Pool
end EnergyChain.Dex
