import EnergyChain.Dex.ERC20

/-!
# WECY

Wrapped ECY: native currency that the contract keeps, as an ERC-20 token. The
functions here are those on the storage of the contract; the native payments of
`deposit` and `withdraw` belong to the chain.
-/

namespace EnergyChain.Dex

structure WECY where
  balanceOf : Address → ℕ
  allowance : Address → Address → ℕ

namespace WECY

/-- The token as others see it; `totalSupply` is the native balance of the
contract. -/
def erc20 (w : WECY) (native : ℕ) : ERC20 :=
  { totalSupply := native, balanceOf := w.balanceOf, allowance := w.allowance }

/-- `deposit`, with the value that came with the call. -/
def deposit (w : WECY) (sender : Address) (value : ℕ) : Except Revert WECY := do
  let balance ← checkedAdd (w.balanceOf sender) value
  return { w with balanceOf := Function.update w.balanceOf sender balance }

/-- `withdraw`, up to the payment. -/
def withdraw (w : WECY) (sender : Address) (wad : ℕ) : Except Revert WECY := do
  require (w.balanceOf sender ≥ wad) "WECY: insufficient balance"
  let balance ← checkedSub (w.balanceOf sender) wad
  return { w with balanceOf := Function.update w.balanceOf sender balance }

def approve (w : WECY) (sender guy : Address) (wad : ℕ) : WECY :=
  { w with
    allowance :=
      Function.update w.allowance sender (Function.update (w.allowance sender) guy wad) }

/-- What `transferFrom` does to the allowance of the caller, who needs none for
an own balance. -/
def spendAllowance (w : WECY) (sender src : Address) (wad : ℕ) : Except Revert WECY :=
  if src ≠ sender ∧ w.allowance src sender ≠ ERC20.infinite then do
    require (w.allowance src sender ≥ wad) "WECY: insufficient allowance"
    let allowance ← checkedSub (w.allowance src sender) wad
    return w.approve src sender allowance
  else .ok w

def transferFrom (w : WECY) (sender src dst : Address) (wad : ℕ) : Except Revert WECY := do
  require (w.balanceOf src ≥ wad) "WECY: insufficient balance"
  let w ← w.spendAllowance sender src wad
  let paid ← checkedSub (w.balanceOf src) wad
  let balanceOf := Function.update w.balanceOf src paid
  let received ← checkedAdd (balanceOf dst) wad
  return { w with balanceOf := Function.update balanceOf dst received }

def transfer (w : WECY) (sender dst : Address) (wad : ℕ) : Except Revert WECY :=
  w.transferFrom sender sender dst wad

variable {w w' : WECY} {sender src dst : Address} {wad : ℕ}

theorem deposit_ok_iff : w.deposit sender wad = .ok w' ↔
    w.balanceOf sender + wad < uint256Size ∧
    { w with balanceOf := Ledger.credit w.balanceOf sender wad } = w' := by
  simp only [deposit, except_bind_ok_iff, checkedAdd_ok_iff, except_pure_ok_iff, Ledger.credit]
  constructor
  · rintro ⟨_, ⟨hlt, rfl⟩, rfl⟩
    exact ⟨hlt, rfl⟩
  · rintro ⟨hlt, rfl⟩
    exact ⟨_, ⟨hlt, rfl⟩, rfl⟩

theorem withdraw_ok_iff : w.withdraw sender wad = .ok w' ↔
    wad ≤ w.balanceOf sender ∧
    { w with balanceOf := Ledger.debit w.balanceOf sender wad } = w' := by
  simp only [withdraw, except_bind_ok_iff, require_ok_iff, checkedSub_ok_iff, except_pure_ok_iff,
    Ledger.debit]
  constructor
  · rintro ⟨-, hle, _, ⟨-, rfl⟩, rfl⟩
    exact ⟨hle, rfl⟩
  · rintro ⟨hle, rfl⟩
    exact ⟨(), hle, _, ⟨hle, rfl⟩, rfl⟩

theorem spendAllowance_ok (h : w.spendAllowance sender src wad = .ok w') :
    w'.balanceOf = w.balanceOf := by
  unfold spendAllowance at h
  split_ifs at h
  · simp only [except_bind_ok_iff, except_pure_ok_iff] at h
    obtain ⟨-, -, _, -, rfl⟩ := h
    rfl
  · rw [Except.ok.inj h]

theorem transferFrom_ok (h : w.transferFrom sender src dst wad = .ok w') :
    wad ≤ w.balanceOf src ∧ w'.balanceOf = Ledger.move w.balanceOf src dst wad := by
  simp only [transferFrom, except_bind_ok_iff, require_ok_iff, checkedSub_ok_iff,
    checkedAdd_ok_iff, except_pure_ok_iff] at h
  obtain ⟨-, hle, w₁, hspent, _, ⟨-, rfl⟩, _, ⟨-, rfl⟩, rfl⟩ := h
  rw [← spendAllowance_ok hspent]
  exact ⟨(spendAllowance_ok hspent).symm ▸ hle, rfl⟩

theorem transferFrom_succeeds (hle : wad ≤ w.balanceOf src)
    (hallowed : src ≠ sender → wad ≤ w.allowance src sender)
    (hlt : Ledger.debit w.balanceOf src wad dst + wad < uint256Size) :
    ∃ w', w.transferFrom sender src dst wad = .ok w' := by
  have hspent : ∃ w₁, w.spendAllowance sender src wad = .ok w₁ := by
    unfold spendAllowance
    split_ifs with hother
    · simp only [except_bind_ok_iff, require_ok_iff, checkedSub_ok_iff, except_pure_ok_iff]
      exact ⟨_, (), hallowed hother.1, _, ⟨hallowed hother.1, rfl⟩, rfl⟩
    · exact ⟨w, rfl⟩
  obtain ⟨w₁, hw₁⟩ := hspent
  have hsame := spendAllowance_ok hw₁
  rw [← hsame] at hlt hle
  simp only [transferFrom, except_bind_ok_iff, require_ok_iff, checkedSub_ok_iff,
    checkedAdd_ok_iff, except_pure_ok_iff]
  exact ⟨_, (), hsame ▸ hle, w₁, hw₁, _, ⟨hle, rfl⟩, _, ⟨hlt, rfl⟩, rfl⟩

theorem transfer_ok_iff : w.transfer src dst wad = .ok w' ↔
    wad ≤ w.balanceOf src ∧
    Ledger.debit w.balanceOf src wad dst + wad < uint256Size ∧
    { w with balanceOf := Ledger.move w.balanceOf src dst wad } = w' := by
  simp only [transfer, transferFrom, spendAllowance, ne_eq, not_true_eq_false, false_and, if_false,
    except_bind_ok_iff, require_ok_iff, checkedSub_ok_iff, checkedAdd_ok_iff, except_pure_ok_iff,
    Ledger.move, Ledger.credit, Ledger.debit]
  constructor
  · rintro ⟨-, hle, _, hsame, _, ⟨-, rfl⟩, _, ⟨hlt, rfl⟩, rfl⟩
    obtain rfl := Except.ok.inj hsame
    exact ⟨hle, hlt, rfl⟩
  · rintro ⟨hle, hlt, rfl⟩
    exact ⟨(), hle, w, rfl, _, ⟨hle, rfl⟩, _, ⟨hlt, rfl⟩, rfl⟩

/-- To a pair WECY is a standard token. -/
theorem erc20_transfer_ok_iff {native : ℕ} {t : ERC20} :
    (w.erc20 native).transfer src dst wad = .ok t ↔
      ∃ w', w.transfer src dst wad = .ok w' ∧ w'.erc20 native = t := by
  simp only [ERC20.transfer_ok_iff, transfer_ok_iff]
  constructor
  · rintro ⟨hle, hlt, rfl⟩
    exact ⟨_, ⟨hle, hlt, rfl⟩, rfl⟩
  · rintro ⟨_, ⟨hle, hlt, rfl⟩, rfl⟩
    exact ⟨hle, hlt, rfl⟩

end WECY
end EnergyChain.Dex
