import EnergyChain.Evm.Checked
import EnergyChain.Foundations.Ledger

/-!
# ERC-20 tokens

Balances, allowances and the supply of a token, with the internal functions of
`UniswapV2ERC20` in checked arithmetic. The liquidity token of a pair is one
such token; a standard token traded by a pair is taken to be another: its
transfers are exact and its balances change in no other way.
-/

namespace EnergyChain.Dex

structure ERC20 where
  totalSupply : ℕ
  balanceOf : Address → ℕ
  allowance : Address → Address → ℕ

namespace ERC20

def initial : ERC20 :=
  { totalSupply := 0, balanceOf := fun _ => 0, allowance := fun _ _ => 0 }

/-- `_mint` -/
def mint (t : ERC20) (dst : Address) (value : ℕ) : Except Revert ERC20 := do
  let totalSupply ← checkedAdd t.totalSupply value
  let balance ← checkedAdd (t.balanceOf dst) value
  return { t with totalSupply, balanceOf := Function.update t.balanceOf dst balance }

/-- `_burn` -/
def burn (t : ERC20) (src : Address) (value : ℕ) : Except Revert ERC20 := do
  let balance ← checkedSub (t.balanceOf src) value
  let totalSupply ← checkedSub t.totalSupply value
  return { t with totalSupply, balanceOf := Function.update t.balanceOf src balance }

/-- `_approve` -/
def approve (t : ERC20) (owner spender : Address) (value : ℕ) : ERC20 :=
  { t with
    allowance :=
      Function.update t.allowance owner (Function.update (t.allowance owner) spender value) }

/-- `_transfer` -/
def transfer (t : ERC20) (src dst : Address) (value : ℕ) : Except Revert ERC20 := do
  let paid ← checkedSub (t.balanceOf src) value
  let balanceOf := Function.update t.balanceOf src paid
  let received ← checkedAdd (balanceOf dst) value
  return { t with balanceOf := Function.update balanceOf dst received }

/-- The greatest `uint256`, as an allowance that is not used up. -/
def infinite : ℕ := uint256Size - 1

/-- What `transferFrom` does to the allowance of the caller. -/
def spendAllowance (t : ERC20) (sender src : Address) (value : ℕ) : Except Revert ERC20 :=
  if t.allowance src sender ≠ infinite then do
    let allowance ← checkedSub (t.allowance src sender) value
    return t.approve src sender allowance
  else .ok t

def transferFrom (t : ERC20) (sender src dst : Address) (value : ℕ) : Except Revert ERC20 := do
  let t ← t.spendAllowance sender src value
  t.transfer src dst value

variable {t t' t'' : ERC20} {a src dst owner spender sender : Address} {value : ℕ}

/-! ### What the functions do -/

theorem mint_ok_iff : t.mint dst value = .ok t' ↔
    t.totalSupply + value < uint256Size ∧ t.balanceOf dst + value < uint256Size ∧
    { t with
      totalSupply := t.totalSupply + value
      balanceOf := Ledger.credit t.balanceOf dst value } = t' := by
  simp only [mint, except_bind_ok_iff, checkedAdd_ok_iff, except_pure_ok_iff, Ledger.credit]
  constructor
  · rintro ⟨_, ⟨hsupply, rfl⟩, _, ⟨hbalance, rfl⟩, rfl⟩
    exact ⟨hsupply, hbalance, rfl⟩
  · rintro ⟨hsupply, hbalance, rfl⟩
    exact ⟨_, ⟨hsupply, rfl⟩, _, ⟨hbalance, rfl⟩, rfl⟩

theorem burn_ok_iff : t.burn src value = .ok t' ↔
    value ≤ t.balanceOf src ∧ value ≤ t.totalSupply ∧
    { t with
      totalSupply := t.totalSupply - value
      balanceOf := Ledger.debit t.balanceOf src value } = t' := by
  simp only [burn, except_bind_ok_iff, checkedSub_ok_iff, except_pure_ok_iff, Ledger.debit]
  constructor
  · rintro ⟨_, ⟨hbalance, rfl⟩, _, ⟨hsupply, rfl⟩, rfl⟩
    exact ⟨hbalance, hsupply, rfl⟩
  · rintro ⟨hbalance, hsupply, rfl⟩
    exact ⟨_, ⟨hbalance, rfl⟩, _, ⟨hsupply, rfl⟩, rfl⟩

theorem transfer_ok_iff : t.transfer src dst value = .ok t' ↔
    value ≤ t.balanceOf src ∧
    Ledger.debit t.balanceOf src value dst + value < uint256Size ∧
    { t with balanceOf := Ledger.move t.balanceOf src dst value } = t' := by
  simp only [transfer, except_bind_ok_iff, checkedSub_ok_iff, checkedAdd_ok_iff,
    except_pure_ok_iff, Ledger.move, Ledger.credit, Ledger.debit]
  constructor
  · rintro ⟨_, ⟨hpaid, rfl⟩, _, ⟨hreceived, rfl⟩, rfl⟩
    exact ⟨hpaid, hreceived, rfl⟩
  · rintro ⟨hpaid, hreceived, rfl⟩
    exact ⟨_, ⟨hpaid, rfl⟩, _, ⟨hreceived, rfl⟩, rfl⟩

theorem mint_totalSupply (h : t.mint dst value = .ok t') :
    t'.totalSupply = t.totalSupply + value := by
  obtain ⟨-, -, rfl⟩ := mint_ok_iff.mp h
  rfl

theorem burn_totalSupply (h : t.burn src value = .ok t') :
    t'.totalSupply = t.totalSupply - value := by
  obtain ⟨-, -, rfl⟩ := burn_ok_iff.mp h
  rfl

theorem spendAllowance_ok (h : t.spendAllowance sender src value = .ok t') :
    t.allowance src sender = infinite ∧ t' = t ∨
    value ≤ t.allowance src sender ∧
      t' = t.approve src sender (t.allowance src sender - value) := by
  unfold spendAllowance at h
  split_ifs at h with hinfinite
  · simp only [except_bind_ok_iff, checkedSub_ok_iff, except_pure_ok_iff] at h
    obtain ⟨_, ⟨hle, rfl⟩, rfl⟩ := h
    exact Or.inr ⟨hle, rfl⟩
  · exact Or.inl ⟨not_not.mp hinfinite, (Except.ok.inj h).symm⟩

theorem transfer_totalSupply (h : t.transfer src dst value = .ok t') :
    t'.totalSupply = t.totalSupply := by
  obtain ⟨-, -, rfl⟩ := transfer_ok_iff.mp h
  rfl

theorem transferFrom_totalSupply (h : t.transferFrom sender src dst value = .ok t') :
    t'.totalSupply = t.totalSupply := by
  simp only [transferFrom, except_bind_ok_iff] at h
  obtain ⟨t₁, hspend, htransfer⟩ := h
  rw [transfer_totalSupply htransfer]
  rcases spendAllowance_ok hspend with ⟨-, rfl⟩ | ⟨-, rfl⟩
  · rfl
  · rfl

theorem transferFrom_moves (h : t.transferFrom sender src dst value = .ok t') :
    value ≤ t.balanceOf src ∧ t'.balanceOf = Ledger.move t.balanceOf src dst value := by
  simp only [transferFrom, except_bind_ok_iff] at h
  obtain ⟨t₁, hspend, htransfer⟩ := h
  obtain ⟨hle, -, rfl⟩ := transfer_ok_iff.mp htransfer
  rcases spendAllowance_ok hspend with ⟨-, rfl⟩ | ⟨-, rfl⟩
  · exact ⟨hle, rfl⟩
  · exact ⟨hle, rfl⟩

theorem transferFrom_succeeds (hle : value ≤ t.balanceOf src)
    (hallowed : value ≤ t.allowance src sender)
    (hlt : Ledger.debit t.balanceOf src value dst + value < uint256Size) :
    ∃ t', t.transferFrom sender src dst value = .ok t' := by
  have hspent : ∃ t₁, t.spendAllowance sender src value = .ok t₁ ∧
      t₁.balanceOf = t.balanceOf := by
    unfold spendAllowance
    split_ifs
    · rw [checkedSub_eq hallowed]
      exact ⟨_, rfl, rfl⟩
    · exact ⟨t, rfl, rfl⟩
  obtain ⟨t₁, ht₁, hsame⟩ := hspent
  rw [← hsame] at hle hlt
  exact ⟨_, by rw [transferFrom, ht₁, except_ok_bind, transfer_ok_iff.mpr ⟨hle, hlt, rfl⟩]⟩

/-! ### What the functions keep -/

/-- The balances add up to the supply. -/
def Conserved (t : ERC20) : Prop := Ledger.total t.balanceOf = t.totalSupply

def Unapproved (t : ERC20) (a : Address) : Prop := ∀ spender, t.allowance a spender = 0

theorem balanceOf_le_totalSupply (h : t.Conserved) (a : Address) :
    t.balanceOf a ≤ t.totalSupply := h ▸ Ledger.le_total t.balanceOf a

theorem initial_conserved : initial.Conserved := Ledger.total_zero

theorem initial_unapproved (a : Address) : initial.Unapproved a := fun _ => rfl

theorem mint_conserved (h : t.mint dst value = .ok t') (hc : t.Conserved) : t'.Conserved := by
  obtain ⟨-, -, rfl⟩ := mint_ok_iff.mp h
  rw [Conserved, Ledger.total_credit, hc]

theorem burn_conserved (h : t.burn src value = .ok t') (hc : t.Conserved) : t'.Conserved := by
  obtain ⟨hbalance, -, rfl⟩ := burn_ok_iff.mp h
  have htotal := Ledger.total_debit hbalance
  rw [hc] at htotal
  exact Nat.eq_sub_of_add_eq htotal

theorem transfer_conserved (h : t.transfer src dst value = .ok t') (hc : t.Conserved) :
    t'.Conserved := by
  obtain ⟨hpaid, -, rfl⟩ := transfer_ok_iff.mp h
  exact (Ledger.total_move hpaid).trans hc

/-- A call of another account leaves `a` what it has, unless `a` has approved
somebody. -/
structure Keeps (a : Address) (t t' : ERC20) : Prop where
  conserved : t.Conserved → t'.Conserved
  unapproved : t.Unapproved a → t'.Unapproved a
  balance : t.Unapproved a → t.balanceOf a ≤ t'.balanceOf a

/-- No balance goes down and no allowance changes, as in a mint. -/
structure Grows (t t' : ERC20) : Prop where
  conserved : t.Conserved → t'.Conserved
  allowance : t'.allowance = t.allowance
  balance : ∀ a, t.balanceOf a ≤ t'.balanceOf a

namespace Grows

theorem refl (t : ERC20) : Grows t t := ⟨id, rfl, fun _ => le_rfl⟩

theorem trans (h : Grows t t') (h' : Grows t' t'') : Grows t t'' :=
  ⟨h'.conserved ∘ h.conserved, h'.allowance.trans h.allowance,
    fun a => (h.balance a).trans (h'.balance a)⟩

theorem mint (h : t.mint dst value = .ok t') : Grows t t' := by
  obtain ⟨-, -, rfl⟩ := mint_ok_iff.mp h
  exact ⟨mint_conserved h, rfl, Ledger.le_credit t.balanceOf dst value⟩

theorem keeps (h : Grows t t') (a : Address) : Keeps a t t' where
  conserved := h.conserved
  unapproved hu spender := h.allowance ▸ hu spender
  balance _ := h.balance a

end Grows

namespace Keeps

theorem refl (a : Address) (t : ERC20) : Keeps a t t := ⟨id, id, fun _ => le_rfl⟩

theorem trans (h : Keeps a t t') (h' : Keeps a t' t'') : Keeps a t t'' where
  conserved := h'.conserved ∘ h.conserved
  unapproved := h'.unapproved ∘ h.unapproved
  balance hu := (h.balance hu).trans (h'.balance (h.unapproved hu))

theorem burn (hne : a ≠ src) (h : t.burn src value = .ok t') : Keeps a t t' where
  conserved := burn_conserved h
  unapproved hu := by
    obtain ⟨-, -, rfl⟩ := burn_ok_iff.mp h
    exact hu
  balance _ := by
    obtain ⟨-, -, rfl⟩ := burn_ok_iff.mp h
    exact (Ledger.debit_of_ne hne).ge

theorem approve (hne : a ≠ owner) : Keeps a t (t.approve owner spender value) where
  conserved := id
  unapproved hu s := by
    simp only [ERC20.approve, Function.update_of_ne hne]
    exact hu s
  balance _ := le_rfl

theorem transfer (hne : a ≠ src) (h : t.transfer src dst value = .ok t') :
    Keeps a t t' := by
  refine ⟨transfer_conserved h, ?_, fun _ => ?_⟩
  · obtain ⟨-, -, rfl⟩ := transfer_ok_iff.mp h
    exact id
  · obtain ⟨-, -, rfl⟩ := transfer_ok_iff.mp h
    exact Ledger.le_move_of_ne hne

theorem transfer_zero (h : t.transfer src dst 0 = .ok t') : Keeps a t t' := by
  by_cases hne : a = src
  · subst hne
    refine ⟨transfer_conserved h, ?_, fun _ => ?_⟩
    · obtain ⟨-, -, rfl⟩ := transfer_ok_iff.mp h
      exact id
    · obtain ⟨-, -, rfl⟩ := transfer_ok_iff.mp h
      exact Ledger.sub_le_move t.balanceOf a dst 0
  · exact transfer hne h

theorem spendAllowance (hne : a ≠ src) (h : t.spendAllowance sender src value = .ok t') :
    Keeps a t t' := by
  rcases spendAllowance_ok h with ⟨-, rfl⟩ | ⟨-, rfl⟩
  · exact refl a _
  · exact approve hne

theorem spendAllowance_unapproved (hu : t.Unapproved a)
    (h : t.spendAllowance sender a value = .ok t') : value = 0 ∧ Keeps a t t' := by
  rcases spendAllowance_ok h with ⟨hinfinite, -⟩ | ⟨hle, rfl⟩
  · rw [hu sender] at hinfinite
    exact absurd hinfinite (by decide)
  · rw [hu sender] at hle
    refine ⟨by omega, id, fun _ spender => ?_, fun _ => le_rfl⟩
    by_cases hs : spender = sender
    · simp [ERC20.approve, hs, hu sender]
    · simp [ERC20.approve, hs, hu spender]

theorem transferFrom (h : t.transferFrom sender src dst value = .ok t') : Keeps a t t' := by
  simp only [ERC20.transferFrom, except_bind_ok_iff] at h
  obtain ⟨t₁, hspend, htransfer⟩ := h
  by_cases hsrc : a = src
  · subst hsrc
    have hkeeps : t.Unapproved a → Keeps a t t' := by
      intro hu
      obtain ⟨rfl, hkept⟩ := spendAllowance_unapproved hu hspend
      exact hkept.trans (transfer_zero htransfer)
    refine ⟨fun hc => ?_, fun hu => (hkeeps hu).unapproved hu, fun hu => (hkeeps hu).balance hu⟩
    refine transfer_conserved htransfer ?_
    rcases spendAllowance_ok hspend with ⟨-, rfl⟩ | ⟨-, rfl⟩
    · exact hc
    · exact hc
  · exact (spendAllowance hsrc hspend).trans (transfer hsrc htransfer)

end Keeps
end ERC20
end EnergyChain.Dex
