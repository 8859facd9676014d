import EnergyChain.Dex.Calls
import EnergyChain.Dex.PairEffects

/-!
# The invariant of a pair

Between calls the storage of a pair is sound and its reserves are covered by
its token balances. Calls that pass the lock are shown one by one to lead from
such a state to another; all other calls, those of a callback included, leave
reserves and supply alone.
-/

namespace EnergyChain.Dex

variable {pool : Pool} {w w' w₁ : World} {block : Block} {dst : Address}

/-- The state of a pair outside its functions, apart from the lock. -/
structure Settled (pool : Pool) (w : World) : Prop where
  sound : Sound w.pair
  last : LastBacked w.pair
  covered0 : w.pair.reserve0 ≤ pool.balance0 w
  covered1 : w.pair.reserve1 ≤ pool.balance1 w
  unapproved0 : w.token0.Unapproved pool.pair
  unapproved1 : w.token1.Unapproved pool.pair

/-- What every call does to a settled state. -/
structure Effect (pool : Pool) (w w' : World) : Prop where
  settled : Settled pool w'
  zeroBalance : w.pair.balanceOf .zero ≤ w'.pair.balanceOf .zero
  notDiluted : w.factory.feeTo = .zero → 0 < w.pair.totalSupply →
    w.pair.fund.NotDiluted w'.pair.fund

/-! ### The lock -/

def World.setUnlocked (w : World) (n : ℕ) : World := w.withPair { w.pair with unlocked := n }

theorem Settled.setUnlocked (h : Settled pool w) (n : ℕ) : Settled pool (w.setUnlocked n) :=
  ⟨⟨h.sound.conserved, h.sound.unapproved, h.sound.minimum, h.sound.backed, h.sound.bounded0,
    h.sound.bounded1⟩, ⟨h.last.lt, h.last.backed⟩, h.covered0, h.covered1, h.unapproved0,
    h.unapproved1⟩

section Lock

variable {α : Type} {r : α} {body : World → Except Revert (α × World)}

theorem lock_ok (h : lock body w = .ok (r, w')) :
    w.pair.unlocked = 1 ∧ ∃ w₁, body (w.setUnlocked 0) = .ok (r, w₁) ∧ w' = w₁.setUnlocked 1 := by
  simp only [lock, except_bind_ok_iff, require_ok_iff, except_pure_ok_iff, Prod.mk.injEq] at h
  obtain ⟨-, hopen, ⟨_, w₁⟩, hbody, rfl, rfl⟩ := h
  exact ⟨hopen, w₁, hbody, rfl⟩

theorem lock_effect (hw : Settled pool w) (h : lock body w = .ok (r, w'))
    (hbody : ∀ w₀ w₁, Settled pool w₀ → w₀.pair.unlocked = 0 → body w₀ = .ok (r, w₁) →
      Effect pool w₀ w₁) :
    Effect pool w w' ∧ w'.pair.unlocked = 1 := by
  obtain ⟨-, w₁, hrun, rfl⟩ := lock_ok h
  have heffect := hbody _ _ (hw.setUnlocked 0) rfl hrun
  exact ⟨⟨heffect.settled.setUnlocked 1, heffect.zeroBalance, heffect.notDiluted⟩, rfl⟩

end Lock

/-! ### Calls that pass the lock -/

theorem mint_effect {l : ℕ} (hw : Settled pool w) (h : pool.mint block dst w = .ok (l, w')) :
    Effect pool w w' ∧ w'.pair.unlocked = 1 := by
  refine lock_effect hw h fun w w' hw _ h => ?_
  simp only [except_bind_ok_iff, checkedSub_ok_iff, require_ok_iff, except_pure_ok_iff,
    Prod.mk.injEq] at h
  obtain ⟨a₀, ⟨hle₀, hsub₀⟩, a₁, ⟨hle₁, hsub₁⟩, ⟨feeOn, p₁⟩, hfee, ⟨l, p₂⟩, hliquidity, -, -, t,
    hmint, p₃, hupdate, p₄, hrecord, rfl, rfl⟩ := h
  have hminted := feeMinted hw.sound hw.last hfee
  have hbalance₀ : p₁.reserve0 + a₀ = pool.balance0 w := by rw [hminted.reserve0]; omega
  have hbalance₁ : p₁.reserve1 + a₁ = pool.balance1 w := by rw [hminted.reserve1]; omega
  dsimp only at hliquidity hmint hupdate hrecord
  rw [← hminted.reserve0, ← hminted.reserve1] at hliquidity
  obtain ⟨t₁, rfl, hgrows₁, hminimum, hbacked, hvalue⟩ :=
    mintLiquidity_effect hminted.sound hliquidity
  rw [hbalance₀, hbalance₁] at hbacked hvalue
  have hgrows : ERC20.Grows p₁.toERC20 t := hgrows₁.trans (.mint hmint)
  have hkept : minimumLiquidity ≤ t.balanceOf .zero :=
    hminimum.trans ((ERC20.Grows.mint hmint).balance .zero)
  have hsupply : t.totalSupply = t₁.totalSupply + l := ERC20.mint_totalSupply hmint
  rw [← hsupply] at hbacked hvalue
  obtain ⟨hsound, hlast, htoken, hfund⟩ := update_recordK_ok (p := (p₁.withToken t₁).withToken t)
    (hgrows.conserved hminted.sound.conserved)
    ((hgrows.keeps .zero).unapproved hminted.sound.unapproved) hkept hbacked hminted.off
    hupdate hrecord
  refine ⟨⟨hsound, hlast, ?_, ?_, hw.unapproved0, hw.unapproved1⟩, ?_, fun hfree hpos => ?_⟩
  · exact (congrArg Fund.reserve0 hfund).le
  · exact (congrArg Fund.reserve1 hfund).le
  · change _ ≤ p₄.toERC20.balanceOf .zero
    rw [htoken]
    exact (hminted.grows.trans hgrows).balance .zero
  · change w.pair.fund.NotDiluted p₄.fund
    rw [hfund, ← hminted.fund_eq hfree]
    exact hvalue ((hminted.free hfree).symm ▸ hpos)

theorem burn_effect {amounts : ℕ × ℕ} (hw : Settled pool w)
    (h : pool.burn block dst w = .ok (amounts, w')) :
    Effect pool w w' ∧ w'.pair.unlocked = 1 := by
  refine lock_effect hw h fun w w' hw _ h => ?_
  simp only [except_bind_ok_iff, checkedMul_ok_iff, checkedDiv_ok_iff, require_ok_iff,
    except_pure_ok_iff, Prod.mk.injEq] at h
  obtain ⟨⟨feeOn, p₁⟩, hfee, _, ⟨-, rfl⟩, a₀, ⟨hne, hdiv₀⟩, _, ⟨-, rfl⟩, a₁, ⟨-, hdiv₁⟩, -, -, t,
    hburn, token0, hsent₀, token1, hsent₁, p₂, hupdate, p₃, hrecord, rfl, rfl⟩ := h
  dsimp only at hne hdiv₀ hdiv₁ hburn hupdate hrecord
  have hminted := feeMinted hw.sound hw.last hfee
  have hkeeps : ERC20.Keeps .zero p₁.toERC20 t := .burn pool.pair_ne_zero.symm hburn
  have hkept : minimumLiquidity ≤ t.balanceOf .zero :=
    (hminted.sound.minimum.resolve_left hne).trans (hkeeps.balance hminted.sound.unapproved)
  obtain ⟨hpaid₀, hleft₀⟩ := sub_le_of_safeTransfer hsent₀
  obtain ⟨hpaid₁, hleft₁⟩ := sub_le_of_safeTransfer hsent₁
  have hvalue : p₁.fund.NotDiluted
      ⟨token0.balanceOf pool.pair, token1.balanceOf pool.pair, t.totalSupply⟩ := by
    rw [ERC20.burn_totalSupply hburn, PairStorage.fund, hminted.reserve0, hminted.reserve1]
    refine Fund.NotDiluted.mono (.withdraw hpaid₀ hpaid₁ (ERC20.burn_ok_iff.mp hburn).2.1 ?_ ?_)
      (Nat.mul_le_mul hw.covered0 hw.covered1) (Nat.mul_le_mul hleft₀ hleft₁)
    · rw [← hdiv₀]
      exact Nat.div_mul_le_self _ _
    · rw [← hdiv₁]
      exact Nat.div_mul_le_self _ _
  obtain ⟨hsound, hlast, htoken, hfund⟩ := update_recordK_ok (p := p₁.withToken t)
    (hkeeps.conserved hminted.sound.conserved) (hkeeps.unapproved hminted.sound.unapproved)
    hkept (hvalue.backed hminted.sound.backed (Nat.pos_of_ne_zero hne)) hminted.off hupdate hrecord
  refine ⟨⟨hsound, hlast, ?_, ?_, unapproved_of_safeTransfer hsent₀ hw.unapproved0,
    unapproved_of_safeTransfer hsent₁ hw.unapproved1⟩, ?_, fun hfree _ => ?_⟩
  · exact (congrArg Fund.reserve0 hfund).le
  · exact (congrArg Fund.reserve1 hfund).le
  · change _ ≤ p₃.toERC20.balanceOf .zero
    rw [htoken]
    exact ((hminted.grows.keeps .zero).trans hkeeps).balance hw.sound.unapproved
  · change w.pair.fund.NotDiluted p₃.fund
    rw [hfund, ← hminted.fund_eq hfree]
    exact hvalue

theorem skim_effect {u : Unit} (hw : Settled pool w) (h : pool.skim dst w = .ok (u, w')) :
    Effect pool w w' ∧ w'.pair.unlocked = 1 := by
  refine lock_effect hw h fun w w' hw _ h => ?_
  simp only [except_bind_ok_iff, checkedSub_ok_iff, except_pure_ok_iff, Prod.mk.injEq] at h
  obtain ⟨_, ⟨hle₀, rfl⟩, token0, hsent₀, _, ⟨hle₁, rfl⟩, token1, hsent₁, -, rfl⟩ := h
  have hleft₀ := (sub_le_of_safeTransfer hsent₀).2
  have hleft₁ := (sub_le_of_safeTransfer hsent₁).2
  refine ⟨⟨hw.sound, hw.last, ?_, ?_, unapproved_of_safeTransfer hsent₀ hw.unapproved0,
    unapproved_of_safeTransfer hsent₁ hw.unapproved1⟩, le_rfl, fun _ _ => .refl _⟩
  · exact (Nat.sub_sub_self hle₀).ge.trans hleft₀
  · exact (Nat.sub_sub_self hle₁).ge.trans hleft₁

theorem settled_of_update {p : PairStorage} {r₀ r₁ : ℕ} (hs : Sound w.pair)
    (hl : LastBacked w.pair) (hu₀ : w.token0.Unapproved pool.pair)
    (hu₁ : w.token1.Unapproved pool.pair)
    (hproduct : w.pair.reserve0 * w.pair.reserve1 ≤ pool.balance0 w * pool.balance1 w)
    (h : update block (pool.balance0 w) (pool.balance1 w) r₀ r₁ w.pair = .ok p) :
    Settled pool (w.withPair p) ∧ p.toERC20 = w.pair.toERC20 ∧
      w.pair.fund.NotDiluted p.fund := by
  have hbacked : Fund.Backed ⟨pool.balance0 w, pool.balance1 w, w.pair.totalSupply⟩ :=
    hs.backed.trans hproduct
  have hsound := sound_of_update hs.conserved hs.unapproved hs.minimum hbacked h
  obtain ⟨-, ⟨h₀, h₁⟩, htoken, hlast⟩ := update_ok h
  refine ⟨⟨hsound, ⟨?_, ?_⟩, h₀.le, h₁.le, hu₀, hu₁⟩, htoken, ?_⟩
  · exact hlast ▸ hl.lt
  · change p.kLast ≠ 0 → p.toERC20.totalSupply ^ 2 ≤ p.kLast
    rw [hlast, htoken]
    exact hl.backed
  · change w.pair.fund.NotDiluted ⟨p.reserve0, p.reserve1, p.toERC20.totalSupply⟩
    rw [h₀, h₁, htoken]
    exact .of_product_le _ hproduct

theorem sync_effect {u : Unit} (hw : Settled pool w) (h : pool.sync block w = .ok (u, w')) :
    Effect pool w w' ∧ w'.pair.unlocked = 1 := by
  refine lock_effect hw h fun w w' hw _ h => ?_
  simp only [except_bind_ok_iff, except_pure_ok_iff, Prod.mk.injEq] at h
  obtain ⟨p, hupdate, -, rfl⟩ := h
  obtain ⟨hsettled, htoken, hvalue⟩ := settled_of_update hw.sound hw.last hw.unapproved0
    hw.unapproved1 (Nat.mul_le_mul hw.covered0 hw.covered1) hupdate
  refine ⟨hsettled, ?_, fun _ _ => hvalue⟩
  change _ ≤ p.toERC20.balanceOf .zero
  rw [htoken]

/-! ### Calls that do not take the lock -/

/-- What a call made while the pair is locked leaves as it is. -/
structure Outside (pool : Pool) (w w' : World) : Prop where
  supply : w'.pair.totalSupply = w.pair.totalSupply
  reserve0 : w'.pair.reserve0 = w.pair.reserve0
  reserve1 : w'.pair.reserve1 = w.pair.reserve1
  kLast : w'.pair.kLast = w.pair.kLast
  unlocked : w'.pair.unlocked = w.pair.unlocked
  liquidity : ERC20.Keeps .zero w.pair.toERC20 w'.pair.toERC20
  token0 : ERC20.Keeps pool.pair w.token0 w'.token0
  token1 : ERC20.Keeps pool.pair w.token1 w'.token1

namespace Outside

theorem refl (pool : Pool) (w : World) : Outside pool w w :=
  ⟨rfl, rfl, rfl, rfl, rfl, .refl _ _, .refl _ _, .refl _ _⟩

theorem trans (h : Outside pool w w₁) (h' : Outside pool w₁ w') : Outside pool w w' :=
  ⟨h'.supply.trans h.supply, h'.reserve0.trans h.reserve0, h'.reserve1.trans h.reserve1,
    h'.kLast.trans h.kLast, h'.unlocked.trans h.unlocked, h.liquidity.trans h'.liquidity,
    h.token0.trans h'.token0, h.token1.trans h'.token1⟩

theorem fund_eq (h : Outside pool w w') : w'.pair.fund = w.pair.fund := by
  rw [PairStorage.fund, h.reserve0, h.reserve1, h.supply, PairStorage.fund]

theorem sound (h : Outside pool w w') (hs : Sound w.pair) : Sound w'.pair where
  conserved := h.liquidity.conserved hs.conserved
  unapproved := h.liquidity.unapproved hs.unapproved
  minimum := by
    rw [h.supply]
    exact hs.minimum.imp_right fun hmin => hmin.trans (h.liquidity.balance hs.unapproved)
  backed := h.fund_eq ▸ hs.backed
  bounded0 := h.reserve0 ▸ hs.bounded0
  bounded1 := h.reserve1 ▸ hs.bounded1

theorem last (h : Outside pool w w') (hl : LastBacked w.pair) : LastBacked w'.pair where
  lt := h.kLast ▸ hl.lt
  backed := by
    rw [h.kLast, h.supply]
    exact hl.backed

theorem effect (h : Outside pool w w') (hw : Settled pool w) : Effect pool w w' where
  settled :=
    { sound := h.sound hw.sound
      last := h.last hw.last
      covered0 := h.reserve0 ▸ hw.covered0.trans (h.token0.balance hw.unapproved0)
      covered1 := h.reserve1 ▸ hw.covered1.trans (h.token1.balance hw.unapproved1)
      unapproved0 := h.token0.unapproved hw.unapproved0
      unapproved1 := h.token1.unapproved hw.unapproved1 }
  zeroBalance := h.liquidity.balance hw.sound.unapproved
  notDiluted _ _ := h.fund_eq ▸ .refl _

end Outside

theorem TransferCall.apply_keeps {t t' : ERC20} {a : Address} {call : TransferCall pool}
    (ha : a = .zero ∨ a = pool.pair) (h : call.apply t = .ok t') :
    ERC20.Keeps a t t' ∧ t'.totalSupply = t.totalSupply := by
  have hne : ∀ sender : Caller pool, a ≠ sender.address := by
    intro sender
    rcases ha with rfl | rfl
    · exact sender.ne_zero.symm
    · exact sender.ne_pair.symm
  cases call with
  | approve sender spender value =>
    obtain rfl := Except.ok.inj h
    exact ⟨.approve (hne sender), rfl⟩
  | transfer sender dst value =>
    exact ⟨.transfer (hne sender) h, ERC20.transfer_totalSupply h⟩
  | transferFrom sender src dst value =>
    exact ⟨.transferFrom h, ERC20.transferFrom_totalSupply h⟩

theorem TokenCall.apply_keeps {t t' : ERC20} {call : TokenCall pool} (h : call.apply t = .ok t') :
    ERC20.Keeps pool.pair t t' := by
  cases call with
  | erc20 call => exact (call.apply_keeps (Or.inr rfl) h).1
  | issue dst value => exact (ERC20.Grows.mint h).keeps _
  | redeem sender value => exact .burn sender.ne_pair.symm h

section Execution

variable {keccak256 : Bytes → Bytes} {ecrecover : Bytes → Signature → Address}

theorem permit_outside {m : PermitMessage} {signature : Signature} {p : PairStorage}
    (h : w.pair.permit keccak256 ecrecover block m signature = .ok p) :
    Outside pool w (w.withPair p) := by
  simp only [PairStorage.permit, except_bind_ok_iff, require_ok_iff, checkedAdd_ok_iff,
    except_pure_ok_iff] at h
  obtain ⟨-, -, _, -, -, ⟨hne, howner⟩, rfl⟩ := h
  rw [howner] at hne
  exact ⟨rfl, rfl, rfl, rfl, rfl, .approve hne.symm, .refl _ _, .refl _ _⟩

/-- A call that does not revert passes the lock as one of five functions or
stays outside. -/
inductive Executed (keccak256 : Bytes → Bytes) (ecrecover : Bytes → Signature → Address)
    (block : Block) (pool : Pool) (w w' : World) : Prop where
  | mint (dst : Address) (l : ℕ) (h : pool.mint block dst w = .ok (l, w'))
  | burn (dst : Address) (amounts : ℕ × ℕ) (h : pool.burn block dst w = .ok (amounts, w'))
  | swap (amount0Out amount1Out : ℕ) (dst : Address) (data : Bytes) (callback : List (Call pool))
      (h : pool.swap block amount0Out amount1Out dst data
        (fun w => .ok (executeAll keccak256 ecrecover block callback w)) w = .ok ((), w'))
  | skim (dst : Address) (h : pool.skim dst w = .ok ((), w'))
  | sync (h : pool.sync block w = .ok ((), w'))
  | outside (h : Outside pool w w')

theorem execute_cases {c : Call pool} (h : execute keccak256 ecrecover block c w = .ok w') :
    Executed keccak256 ecrecover block pool w w' := by
  cases c <;> simp only [execute, except_bind_ok_iff, except_pure_ok_iff] at h
  case mint dst =>
    obtain ⟨⟨l, _⟩, h, rfl⟩ := h
    exact .mint dst l h
  case burn dst =>
    obtain ⟨⟨amounts, _⟩, h, rfl⟩ := h
    exact .burn dst amounts h
  case swap amount0Out amount1Out dst data callback =>
    obtain ⟨⟨_, _⟩, h, rfl⟩ := h
    exact .swap amount0Out amount1Out dst data callback h
  case skim dst =>
    obtain ⟨⟨_, _⟩, h, rfl⟩ := h
    exact .skim dst h
  case sync =>
    obtain ⟨⟨_, _⟩, h, rfl⟩ := h
    exact .sync h
  all_goals refine .outside ?_
  case liquidity call =>
    obtain ⟨t, h, rfl⟩ := h
    obtain ⟨hkeeps, hsupply⟩ := call.apply_keeps (Or.inl rfl) h
    exact ⟨hsupply, rfl, rfl, rfl, rfl, hkeeps, .refl _ _, .refl _ _⟩
  case permit message signature =>
    obtain ⟨p, h, rfl⟩ := h
    exact permit_outside h
  case token0 call =>
    obtain ⟨t, h, rfl⟩ := h
    exact ⟨rfl, rfl, rfl, rfl, rfl, .refl _ _, call.apply_keeps h, .refl _ _⟩
  case token1 call =>
    obtain ⟨t, h, rfl⟩ := h
    exact ⟨rfl, rfl, rfl, rfl, rfl, .refl _ _, .refl _ _, call.apply_keeps h⟩
  case setFeeTo sender feeTo =>
    obtain ⟨factory, -, rfl⟩ := h
    exact ⟨rfl, rfl, rfl, rfl, rfl, .refl _ _, .refl _ _, .refl _ _⟩
  case setFeeToSetter sender feeToSetter =>
    obtain ⟨factory, -, rfl⟩ := h
    exact ⟨rfl, rfl, rfl, rfl, rfl, .refl _ _, .refl _ _, .refl _ _⟩

/-- While the pair is locked every call stays outside: the five functions
revert. -/
theorem execute_locked {c : Call pool} (hlocked : w.pair.unlocked ≠ 1)
    (h : execute keccak256 ecrecover block c w = .ok w') : Outside pool w w' := by
  cases execute_cases h with
  | mint _ _ h => exact absurd (lock_ok h).1 hlocked
  | burn _ _ h => exact absurd (lock_ok h).1 hlocked
  | swap _ _ _ _ _ h => exact absurd (lock_ok h).1 hlocked
  | skim _ h => exact absurd (lock_ok h).1 hlocked
  | sync h => exact absurd (lock_ok h).1 hlocked
  | outside h => exact h

theorem executeAll_locked (callback : List (Call pool)) (w : World) (hlocked : w.pair.unlocked ≠ 1) :
    Outside pool w (executeAll keccak256 ecrecover block callback w) := by
  induction callback generalizing w with
  | nil =>
    rw [executeAll]
    exact .refl _ _
  | cons c callback ih =>
    rw [executeAll]
    cases h : execute keccak256 ecrecover block c w with
    | error e => exact ih w hlocked
    | ok w₁ =>
      have hout := execute_locked hlocked h
      exact hout.trans (ih w₁ (hout.unlocked ▸ hlocked))

end Execution

/-! ### Swap -/

theorem payOut_unapproved {t t' : ERC20} {v : ℕ} (h : pool.payOut t dst v = .ok t')
    (hu : t.Unapproved pool.pair) : t'.Unapproved pool.pair := by
  unfold Pool.payOut at h
  split_ifs at h
  · exact unapproved_of_safeTransfer h hu
  · exact Except.ok.inj h ▸ hu

theorem balanceAdjusted_le {balance amountIn adjusted : ℕ}
    (h : Pool.balanceAdjusted balance amountIn = .ok adjusted) : adjusted ≤ balance * 1000 := by
  simp only [Pool.balanceAdjusted, except_bind_ok_iff, checkedMul_ok_iff, checkedSub_ok_iff] at h
  obtain ⟨_, ⟨-, rfl⟩, _, ⟨-, rfl⟩, -, rfl⟩ := h
  exact Nat.sub_le _ _

/-- The check of `swap` on the adjusted balances keeps the product. -/
theorem product_le_of_adjusted {k b₀ b₁ x₀ x₁ : ℕ} (h₀ : x₀ ≤ b₀ * 1000) (h₁ : x₁ ≤ b₁ * 1000)
    (hk : k * 1000 ^ 2 ≤ x₀ * x₁) : k ≤ b₀ * b₁ := by
  have hmul := Nat.mul_le_mul h₀ h₁
  nlinarith

/-- The callee may do what stays outside the locked pair. -/
theorem swap_effect {amount0Out amount1Out : ℕ} {data : Bytes}
    {callee : World → Except Revert World} {u : Unit} (hw : Settled pool w)
    (hcallee : ∀ w₁ w₂, w₁.pair.unlocked ≠ 1 → callee w₁ = .ok w₂ → Outside pool w₁ w₂)
    (h : pool.swap block amount0Out amount1Out dst data callee w = .ok (u, w')) :
    Effect pool w w' ∧ w'.pair.unlocked = 1 := by
  refine lock_effect hw h fun w w' hw hlocked h => ?_
  simp only [except_bind_ok_iff, require_ok_iff, checkedMul_ok_iff, except_pure_ok_iff,
    Prod.mk.injEq] at h
  obtain ⟨-, -, -, -, -, -, token0, hpaid₀, token1, hpaid₁, w₂, hcall, in₀, hin₀, in₁, hin₁, -, -,
    x₀, hx₀, x₁, hx₁, _, ⟨-, rfl⟩, _, ⟨-, rfl⟩, _, ⟨-, rfl⟩, -, hk, p, hupdate, -, rfl⟩ := h
  have hout : Outside pool { w with token0, token1 } w₂ := by
    unfold Pool.call at hcall
    split_ifs at hcall
    · exact hcallee _ _ (by simp [hlocked]) hcall
    · exact Except.ok.inj hcall ▸ .refl _ _
  have hproduct : w₂.pair.reserve0 * w₂.pair.reserve1 ≤ pool.balance0 w₂ * pool.balance1 w₂ := by
    rw [hout.reserve0, hout.reserve1]
    exact product_le_of_adjusted (balanceAdjusted_le hx₀) (balanceAdjusted_le hx₁) hk
  obtain ⟨hsettled, htoken, hvalue⟩ := settled_of_update (hout.sound hw.sound)
    (hout.last hw.last) (hout.token0.unapproved (payOut_unapproved hpaid₀ hw.unapproved0))
    (hout.token1.unapproved (payOut_unapproved hpaid₁ hw.unapproved1)) hproduct hupdate
  refine ⟨hsettled, ?_, fun _ _ => ?_⟩
  · change _ ≤ p.toERC20.balanceOf .zero
    rw [htoken]
    exact hout.liquidity.balance hw.sound.unapproved
  · change w.pair.fund.NotDiluted p.fund
    exact hout.fund_eq ▸ hvalue

/-! ### Runs -/

section Runs

variable (keccak256 : Bytes → Bytes) (ecrecover : Bytes → Signature → Address)

theorem execute_effect {c : Call pool} (hw : Settled pool w)
    (h : execute keccak256 ecrecover block c w = .ok w') :
    Effect pool w w' ∧ (w.pair.unlocked = 1 → w'.pair.unlocked = 1) := by
  cases execute_cases h with
  | mint _ _ h => exact (mint_effect hw h).imp_right fun hopen _ => hopen
  | burn _ _ h => exact (burn_effect hw h).imp_right fun hopen _ => hopen
  | swap _ _ _ _ callback h =>
    have hcallee : ∀ w₁ w₂, w₁.pair.unlocked ≠ 1 →
        Except.ok (executeAll keccak256 ecrecover block callback w₁) = Except.ok (ε := Revert) w₂ →
        Outside pool w₁ w₂ := by
      intro w₁ w₂ hlocked hcall
      exact Except.ok.inj hcall ▸ executeAll_locked callback w₁ hlocked
    exact (swap_effect hw hcallee h).imp_right fun hopen _ => hopen
  | skim _ h => exact (skim_effect hw h).imp_right fun hopen _ => hopen
  | sync h => exact (sync_effect hw h).imp_right fun hopen _ => hopen
  | outside h => exact ⟨h.effect hw, fun hopen => h.unlocked.trans hopen⟩

theorem deployed_settled (chainid : ℕ) (token0 token1 : TradedToken pool) (factory : FeeSetting) :
    Settled pool (.deployed keccak256 chainid token0 token1 factory) where
  sound := ⟨ERC20.initial_conserved, ERC20.initial_unapproved _, Or.inl rfl, le_rfl,
    Nat.two_pow_pos 112, Nat.two_pow_pos 112⟩
  last := ⟨Nat.two_pow_pos 256, fun hne => absurd rfl hne⟩
  covered0 := Nat.zero_le _
  covered1 := Nat.zero_le _
  unapproved0 := token0.unapproved
  unapproved1 := token1.unapproved

/-- A transaction is reverted and changes nothing, or its call goes through. -/
theorem deliver_cases (w : World) (m : Block × Call pool) :
    (¬ (deliver keccak256 ecrecover).Accepts w m ∧ (deliver keccak256 ecrecover w m).1 = w) ∨
      ((deliver keccak256 ecrecover).Accepts w m ∧
        execute keccak256 ecrecover m.1 m.2 w = .ok (deliver keccak256 ecrecover w m).1) := by
  cases h : execute keccak256 ecrecover m.1 m.2 w with
  | error e =>
    refine Or.inl ⟨?_, by simp [deliver, h]⟩
    rintro ⟨r, hr⟩
    simp [deliver, h] at hr
  | ok w' => exact Or.inr ⟨⟨(), by simp [deliver, h]⟩, by simp [deliver, h]⟩

/-- A transaction keeps a settled state and the liquidity of the zero address. -/
theorem deliver_effect (hw : Settled pool w) (m : Block × Call pool) :
    Settled pool (deliver keccak256 ecrecover w m).1 ∧
      w.pair.balanceOf .zero ≤ (deliver keccak256 ecrecover w m).1.pair.balanceOf .zero ∧
      (w.pair.unlocked = 1 → (deliver keccak256 ecrecover w m).1.pair.unlocked = 1) := by
  rcases deliver_cases keccak256 ecrecover w m with ⟨-, hsame⟩ | ⟨-, h⟩
  · rw [hsame]
    exact ⟨hw, le_rfl, id⟩
  · obtain ⟨heffect, hopen⟩ := execute_effect keccak256 ecrecover hw h
    exact ⟨heffect.settled, heffect.zeroBalance, hopen⟩

/-- Along a run from a settled state the liquidity of the zero address never
goes down. -/
theorem run_settled (hw : Settled pool w) (ms : List (Block × Call pool)) :
    Settled pool ((deliver keccak256 ecrecover).run w ms) ∧
      w.pair.balanceOf .zero ≤ ((deliver keccak256 ecrecover).run w ms).pair.balanceOf .zero ∧
      (w.pair.unlocked = 1 → ((deliver keccak256 ecrecover).run w ms).pair.unlocked = 1) := by
  refine (deliver keccak256 ecrecover).run_invariant (P := fun w' => Settled pool w' ∧
    w.pair.balanceOf .zero ≤ w'.pair.balanceOf .zero ∧
      (w.pair.unlocked = 1 → w'.pair.unlocked = 1)) ms ⟨hw, le_rfl, id⟩ ?_
  rintro w' ⟨hw', hzero, hopen⟩ m -
  obtain ⟨hsettled, hzero', hopen'⟩ := deliver_effect keccak256 ecrecover hw' m
  exact ⟨hsettled, hzero.trans hzero', hopen' ∘ hopen⟩

end Runs
end EnergyChain.Dex
