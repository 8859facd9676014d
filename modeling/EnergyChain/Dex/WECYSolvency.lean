import EnergyChain.Dex.WECY
import EnergyChain.Foundations.MessageRuns

/-!
# WECY is solvent

The native currency of the contract covers all balances at every moment, also while
`withdraw` pays out an account whose code makes further calls. Calls of other code
are steps of their own: one that begins remembers the state it began in, one that
reverts brings that state back.
-/

namespace EnergyChain.Dex.WECY

/-- The native balances of all accounts and the storage of the contract. -/
structure Custody where
  native : Address → ℕ
  wecy : WECY

namespace Custody

/-- After the constructor, which runs before anybody can pay. -/
def deployed (native : Address → ℕ) : Custody :=
  { native, wecy := { balanceOf := fun _ => 0, allowance := fun _ _ => 0 } }

def pay (src dst : Address) (value : ℕ) (s : Custody) : Except Revert Custody :=
  if value ≤ s.native src then .ok { s with native := Ledger.move s.native src dst value }
  else .error (.error [])

/-- `deposit`, with the value that comes with the call. -/
def deposit (weth sender : Address) (value : ℕ) (s : Custody) : Except Revert Custody := do
  let s ← s.pay sender weth value
  let wecy ← s.wecy.deposit sender value
  return { s with wecy }

/-- `withdraw`, up to when the code of the account that is paid begins to run. -/
def withdraw (weth sender : Address) (wad : ℕ) (s : Custody) : Except Revert Custody := do
  let wecy ← s.wecy.withdraw sender wad
  { s with wecy }.pay weth sender wad

end Custody

/-- An account that is not the contract. -/
structure Outsider (weth : Address) where
  address : Address
  ne_weth : address ≠ weth

/-- What can happen. A plain payment to the contract calls `receive`; only one that
runs no code of it, such as that of a contract that destroys itself, is forced. -/
inductive Action (weth : Address) where
  | deposit (sender : Outsider weth) (value : ℕ)
  | receive (sender : Outsider weth) (value : ℕ)
  | withdraw (sender : Outsider weth) (wad : ℕ)
  | approve (sender : Outsider weth) (guy : Address) (wad : ℕ)
  | transfer (sender : Outsider weth) (dst : Address) (wad : ℕ)
  | transferFrom (sender : Outsider weth) (src dst : Address) (wad : ℕ)
  | pay (src dst : Outsider weth) (value : ℕ)
  | force (src : Outsider weth) (value : ℕ)
  | enter
  | leave
  | revert

/-- The state, and the states in which the calls under way have begun. -/
structure Machine where
  state : Custody
  frames : List Custody

section Execution

variable {weth : Address}

/-- A step that does not revert. After `withdraw` has paid, the call of the account
that was paid is under way. -/
def execute (m : Machine) : Action weth → Except Revert Machine
  | .deposit sender value => do
    let state ← m.state.deposit weth sender.address value
    return { m with state }
  | .receive sender value => do
    let state ← m.state.deposit weth sender.address value
    return { m with state }
  | .withdraw sender wad => do
    let state ← m.state.withdraw weth sender.address wad
    return { state, frames := m.state :: m.frames }
  | .approve sender guy wad =>
    .ok { m with state := { m.state with wecy := m.state.wecy.approve sender.address guy wad } }
  | .transfer sender dst wad => do
    let wecy ← m.state.wecy.transfer sender.address dst wad
    return { m with state := { m.state with wecy } }
  | .transferFrom sender src dst wad => do
    let wecy ← m.state.wecy.transferFrom sender.address src dst wad
    return { m with state := { m.state with wecy } }
  | .pay src dst value => do
    let state ← m.state.pay src.address dst.address value
    return { m with state }
  | .force src value => do
    let state ← m.state.pay src.address weth value
    return { m with state }
  | .enter => .ok { m with frames := m.state :: m.frames }
  | .leave =>
    match m.frames with
    | _ :: frames => .ok { m with frames }
    | [] => .error (.error [])
  | .revert =>
    match m.frames with
    | state :: frames => .ok { state, frames }
    | [] => .error (.error [])

/-- A call that reverts at once changes nothing. -/
def perform : Handler Machine (Action weth) Revert Unit := fun m a =>
  match execute m a with
  | .ok m' => (m', .ok ())
  | .error e => (m, .error e)

variable {s s' : Custody} {m m' : Machine} {a : Action weth} {sender src dst : Address} {v : ℕ}

/-! ### Single steps -/

/-- What the contract has and what it owes have changed by the same amount. -/
def Keeps (weth : Address) (s s' : Custody) : Prop :=
  s'.native weth + Ledger.total s.wecy.balanceOf = s.native weth + Ledger.total s'.wecy.balanceOf

theorem Custody.pay_ok_iff : s.pay src dst v = .ok s' ↔
    v ≤ s.native src ∧ { s with native := Ledger.move s.native src dst v } = s' := by
  unfold pay
  split_ifs with hle <;> simp [hle]

theorem deposit_keeps (hsender : sender ≠ weth) (h : s.deposit weth sender v = .ok s') :
    Keeps weth s s' := by
  simp only [Custody.deposit, except_bind_ok_iff, Custody.pay_ok_iff, WECY.deposit_ok_iff,
    except_pure_ok_iff] at h
  obtain ⟨_, ⟨hle, rfl⟩, _, ⟨-, rfl⟩, rfl⟩ := h
  have hnative := Ledger.move_target (f := s.native) (v := v) hsender
  have htotal := Ledger.total_credit s.wecy.balanceOf sender v
  unfold Keeps
  dsimp only
  omega

theorem Custody.withdraw_ok_iff : s.withdraw weth sender v = .ok s' ↔
    v ≤ s.wecy.balanceOf sender ∧ v ≤ s.native weth ∧
    { native := Ledger.move s.native weth sender v
      wecy := { s.wecy with balanceOf := Ledger.debit s.wecy.balanceOf sender v } } = s' := by
  simp only [withdraw, except_bind_ok_iff, WECY.withdraw_ok_iff, pay_ok_iff]
  constructor
  · rintro ⟨_, ⟨hle, rfl⟩, hnative, rfl⟩
    exact ⟨hle, hnative, rfl⟩
  · rintro ⟨hle, hnative, rfl⟩
    exact ⟨_, ⟨hle, rfl⟩, hnative, rfl⟩

theorem withdraw_keeps (hsender : sender ≠ weth) (h : s.withdraw weth sender v = .ok s') :
    Keeps weth s s' := by
  obtain ⟨hle, hnative, rfl⟩ := Custody.withdraw_ok_iff.mp h
  have hpaid := Ledger.move_source (f := s.native) (v := v) hsender.symm
  have htotal := Ledger.total_debit hle
  unfold Keeps
  dsimp only
  omega

theorem transferFrom_total {w w' : WECY} (h : w.transferFrom sender src dst v = .ok w') :
    Ledger.total w'.balanceOf = Ledger.total w.balanceOf := by
  obtain ⟨hle, hmoved⟩ := transferFrom_ok h
  rw [hmoved, Ledger.total_move hle]

theorem transferFrom_allowance {w w' : WECY} (h : w.transferFrom sender src dst v = .ok w')
    (hother : sender ≠ src) (hfinite : w.allowance src sender ≠ ERC20.infinite) :
    w'.allowance src sender + v = w.allowance src sender := by
  simp only [transferFrom, spendAllowance, except_bind_ok_iff, except_pure_ok_iff,
    if_pos (And.intro hother.symm hfinite), require_ok_iff, checkedSub_ok_iff] at h
  obtain ⟨-, -, _, ⟨-, hle, _, ⟨-, rfl⟩, rfl⟩, -, -, -, -, rfl⟩ := h
  simp only [approve, Function.update_self]
  omega

/-! ### Runs -/

variable {P : Custody → Prop}

/-- The property holds of the state, and of the states that could come back. -/
def Machine.All (P : Custody → Prop) (m : Machine) : Prop := P m.state ∧ ∀ s ∈ m.frames, P s

/-- Every step but a forced payment keeps the surplus of the contract. -/
theorem execute_all (hkeeps : ∀ s s', Keeps weth s s' → P s → P s')
    (hforce : ∀ src v, a = .force src v → ∀ s s', s.pay src.address weth v = .ok s' → P s → P s')
    (hm : m.All P) (h : execute m a = .ok m') : m'.All P := by
  obtain ⟨hstate, hframes⟩ := hm
  cases a <;> simp only [execute, except_bind_ok_iff, except_pure_ok_iff] at h
  case deposit sender value =>
    obtain ⟨state, hrun, rfl⟩ := h
    exact ⟨hkeeps _ _ (deposit_keeps sender.ne_weth hrun) hstate, hframes⟩
  case receive sender value =>
    obtain ⟨state, hrun, rfl⟩ := h
    exact ⟨hkeeps _ _ (deposit_keeps sender.ne_weth hrun) hstate, hframes⟩
  case withdraw sender wad =>
    obtain ⟨state, hrun, rfl⟩ := h
    refine ⟨hkeeps _ _ (withdraw_keeps sender.ne_weth hrun) hstate, ?_⟩
    exact List.forall_mem_cons.mpr ⟨hstate, hframes⟩
  case approve =>
    obtain rfl := Except.ok.inj h
    refine ⟨hkeeps m.state _ ?_ hstate, hframes⟩
    exact congrArg (m.state.native weth + ·) rfl
  case transfer =>
    obtain ⟨wecy, hrun, rfl⟩ := h
    refine ⟨hkeeps _ _ ?_ hstate, hframes⟩
    exact congrArg (m.state.native weth + ·) (transferFrom_total hrun).symm
  case transferFrom =>
    obtain ⟨wecy, hrun, rfl⟩ := h
    refine ⟨hkeeps _ _ ?_ hstate, hframes⟩
    exact congrArg (m.state.native weth + ·) (transferFrom_total hrun).symm
  case pay src dst value =>
    obtain ⟨_, hrun, rfl⟩ := h
    obtain ⟨-, rfl⟩ := Custody.pay_ok_iff.mp hrun
    refine ⟨hkeeps _ _ ?_ hstate, hframes⟩
    exact congrArg (· + _) (Ledger.move_of_ne src.ne_weth.symm dst.ne_weth.symm)
  case force src value =>
    obtain ⟨_, hrun, rfl⟩ := h
    exact ⟨hforce src value rfl _ _ hrun hstate, hframes⟩
  case enter =>
    obtain rfl := Except.ok.inj h
    exact ⟨hstate, List.forall_mem_cons.mpr ⟨hstate, hframes⟩⟩
  case leave =>
    split at h
    · case _ hcons =>
      obtain rfl := Except.ok.inj h
      rw [hcons] at hframes
      exact ⟨hstate, (List.forall_mem_cons.mp hframes).2⟩
    · cases h
  case revert =>
    split at h
    · case _ hcons =>
      obtain rfl := Except.ok.inj h
      rw [hcons] at hframes
      exact List.forall_mem_cons.mp hframes
    · cases h

theorem run_all (as : List (Action weth)) (hkeeps : ∀ s s', Keeps weth s s' → P s → P s')
    (hforce : ∀ src v, .force src v ∈ as → ∀ s s', s.pay src.address weth v = .ok s' → P s → P s')
    (hm : m.All P) : (perform.run m as).All P := by
  refine perform.run_invariant as hm ?_
  intro m hm a ha
  unfold perform
  split
  · case _ m' hrun =>
    refine execute_all hkeeps ?_ hm hrun
    rintro src v rfl
    exact hforce src v ha
  · exact hm

/-- The balances are covered. -/
def Solvent (weth : Address) (s : Custody) : Prop :=
  Ledger.total s.wecy.balanceOf ≤ s.native weth

theorem run_solvent (native : Address → ℕ) (as : List (Action weth)) :
    Solvent weth (perform.run ⟨.deployed native, []⟩ as).state := by
  have hstart : Solvent weth (.deployed native) := by
    rw [Solvent, show Ledger.total (Custody.deployed native).wecy.balanceOf = 0 from
      Ledger.total_zero]
    exact Nat.zero_le _
  refine (run_all as ?_ ?_ ⟨hstart, nofun⟩).1
  · intro s s' hkeeps hs
    unfold Keeps at hkeeps
    unfold Solvent at hs ⊢
    omega
  · intro src v _ s s' hpay hs
    obtain ⟨-, rfl⟩ := Custody.pay_ok_iff.mp hpay
    have hreceived := Ledger.move_target (f := s.native) (v := v) src.ne_weth
    unfold Solvent at hs ⊢
    dsimp only
    omega

theorem run_exact {native : Address → ℕ} {as : List (Action weth)} (hempty : native weth = 0)
    (hnone : ∀ src v, .force src v ∉ as) :
    let s := (perform.run ⟨.deployed native, []⟩ as).state
    Ledger.total s.wecy.balanceOf = s.native weth := by
  have hstart : Ledger.total (Custody.deployed native).wecy.balanceOf = native weth :=
    Ledger.total_zero.trans hempty.symm
  have hexact : (perform.run ⟨.deployed native, []⟩ as).All fun s =>
      Ledger.total s.wecy.balanceOf = s.native weth := by
    refine run_all as ?_ ?_ ⟨hstart, nofun⟩
    · intro s s' hkeeps hs
      unfold Keeps at hkeeps
      omega
    · intro src v hmem
      exact absurd hmem (hnone src v)
  exact hexact.1

theorem withdraw_accepts (hsolvent : Solvent weth m.state) {sender : Outsider weth} {wad : ℕ}
    (hle : wad ≤ m.state.wecy.balanceOf sender.address) :
    perform.Accepts m (.withdraw sender wad) := by
  have hfunds : wad ≤ m.state.native weth := hle.trans ((Ledger.le_total _ _).trans hsolvent)
  have hrun := Custody.withdraw_ok_iff.mpr ⟨hle, hfunds, rfl⟩
  refine ⟨(), ?_⟩
  simp only [perform, execute, hrun, except_ok_bind]
  rfl

theorem transferFrom_accepts {sender : Outsider weth} {wad : ℕ}
    (h : perform.Accepts m (.transferFrom sender src dst wad)) :
    ∃ w', m.state.wecy.transferFrom sender.address src dst wad = .ok w' ∧
      (perform m (.transferFrom sender src dst wad)).1.state.wecy = w' := by
  obtain ⟨_, h⟩ := h
  simp only [perform, execute] at h ⊢
  cases hrun : m.state.wecy.transferFrom sender.address src dst wad with
  | error e =>
    rw [hrun] at h
    cases h
  | ok w' => exact ⟨w', rfl, rfl⟩

/-- In every reachable state WECY is covered by native currency, exactly if none was
forced in, so that it pays out every withdrawal; and a transfer by a third party
takes the amount from its allowance and keeps the sum of the balances. -/
theorem wecy_solvent (weth : Address) (native : Address → ℕ) (as : List (Action weth)) :
    let m := perform.run ⟨.deployed native, []⟩ as
    Ledger.total m.state.wecy.balanceOf ≤ m.state.native weth ∧
    ((native weth = 0 ∧ ∀ src v, .force src v ∉ as) →
      Ledger.total m.state.wecy.balanceOf = m.state.native weth) ∧
    (∀ (sender : Outsider weth) wad, wad ≤ m.state.wecy.balanceOf sender.address →
      perform.Accepts m (.withdraw sender wad)) ∧
    ∀ (sender : Outsider weth) src dst wad, sender.address ≠ src →
      perform.Accepts m (.transferFrom sender src dst wad) →
      let w := m.state.wecy
      let w' := (perform m (.transferFrom sender src dst wad)).1.state.wecy
      wad ≤ w.balanceOf src ∧ w'.balanceOf = Ledger.move w.balanceOf src dst wad ∧
      Ledger.total w'.balanceOf = Ledger.total w.balanceOf ∧
      (w.allowance src sender.address ≠ ERC20.infinite →
        w'.allowance src sender.address + wad = w.allowance src sender.address) := by
  intro m
  have hsolvent : Solvent weth m.state := run_solvent native as
  refine ⟨hsolvent, fun h => run_exact h.1 h.2, fun sender wad => withdraw_accepts hsolvent, ?_⟩
  intro sender src dst wad hother hacc
  obtain ⟨w', hrun, hw'⟩ := transferFrom_accepts hacc
  intro w w''
  obtain rfl : w' = w'' := hw'.symm
  obtain ⟨hle, hmoved⟩ := transferFrom_ok hrun
  exact ⟨hle, hmoved, transferFrom_total hrun, transferFrom_allowance hrun hother⟩

end Execution
end EnergyChain.Dex.WECY
