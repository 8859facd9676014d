import EnergyChain.Foundations.Fallible

/-!
# Computations that log

A computation that may fail and that appends entries to a log as it goes; one
that fails leaves no entries. Dropping the log gives back a plain computation.
-/

namespace EnergyChain

structure Emitting (ε η α : Type) where
  run : Except ε (List η × α)

namespace Emitting

variable {ε η α β : Type}

instance : Monad (Emitting ε η) where
  pure a := ⟨.ok ([], a)⟩
  bind m f := ⟨do
    let (log, a) ← m.run
    let (log', b) ← (f a).run
    return (log ++ log', b)⟩

def emit (e : η) : Emitting ε η Unit := ⟨.ok ([e], ())⟩

/-- A computation that logs nothing. -/
def lift (m : Except ε α) : Emitting ε η α := ⟨do
  let a ← m
  return ([], a)⟩

instance : MonadLift (Except ε) (Emitting ε η) := ⟨lift⟩

/-- The computation without its log. -/
def plain (m : Emitting ε η α) : Except ε α := Prod.snd <$> m.run

variable {m : Emitting ε η α} {f : α → Emitting ε η β} {log : List η} {a : α} {b : β}

/-! ### The log of a sequence -/

theorem run_bind : (m >>= f).run =
    m.run >>= fun r => (f r.2).run >>= fun r' => pure (r.1 ++ r'.1, r'.2) := rfl

@[simp] theorem run_bind_ok_iff : (m >>= f).run = .ok (log, b) ↔
    ∃ log₁ a, m.run = .ok (log₁, a) ∧ ∃ log₂, (f a).run = .ok (log₂, b) ∧ log₁ ++ log₂ = log := by
  rw [run_bind]
  simp only [except_bind_ok_iff, except_pure_ok_iff, Prod.mk.injEq, Prod.exists]
  constructor
  · rintro ⟨log₁, a, hm, log₂, b, hf, rfl, rfl⟩
    exact ⟨log₁, a, hm, log₂, hf, rfl⟩
  · rintro ⟨log₁, a, hm, log₂, hf, rfl⟩
    exact ⟨log₁, a, hm, log₂, b, hf, rfl, rfl⟩

@[simp] theorem run_pure_ok_iff {a' : α} :
    (pure a' : Emitting ε η α).run = .ok (log, a) ↔ log = [] ∧ a' = a := by
  simp [pure, eq_comm]

@[simp] theorem run_emit_ok_iff {e : η} {u : Unit} :
    (emit e : Emitting ε η Unit).run = .ok (log, u) ↔ log = [e] := by
  simp [emit, eq_comm]

@[simp] theorem run_lift_ok_iff {m : Except ε α} :
    (lift m : Emitting ε η α).run = .ok (log, a) ↔ log = [] ∧ m = .ok a := by
  cases m with
  | error e => simp [lift, bind, Except.bind]
  | ok a' => simp [lift, bind, Except.bind, pure, Except.pure, eq_comm]

@[simp] theorem run_monadLift_ok_iff {m : Except ε α} :
    (liftM m : Emitting ε η α).run = .ok (log, a) ↔ log = [] ∧ m = .ok a := run_lift_ok_iff

theorem run_monadLift_bind_ok_iff {m : Except ε α} :
    ((liftM m : Emitting ε η α) >>= f).run = .ok (log, b) ↔
      ∃ a, m = .ok a ∧ (f a).run = .ok (log, b) := by
  rw [run_bind_ok_iff]
  constructor
  · rintro ⟨_, a, hlift, log, hf, rfl⟩
    obtain ⟨rfl, hm⟩ := run_monadLift_ok_iff.mp hlift
    exact ⟨a, hm, hf⟩
  · rintro ⟨a, hm, hf⟩
    exact ⟨[], a, run_monadLift_ok_iff.mpr ⟨rfl, hm⟩, log, hf, rfl⟩

theorem run_emit_bind_ok_iff {e : η} {f : Unit → Emitting ε η β} :
    (emit e >>= f).run = .ok (log, b) ↔ ∃ rest, (f ()).run = .ok (rest, b) ∧ e :: rest = log := by
  rw [run_bind_ok_iff]
  constructor
  · rintro ⟨_, _, he, rest, hf, rfl⟩
    rw [run_emit_ok_iff.mp he]
    exact ⟨rest, hf, rfl⟩
  · rintro ⟨rest, hf, rfl⟩
    exact ⟨[e], (), run_emit_ok_iff.mpr rfl, rest, hf, rfl⟩

/-! ### Without the log -/

theorem plain_ok_iff : m.plain = .ok a ↔ ∃ log, m.run = .ok (log, a) := by
  rw [plain, except_map_ok_iff]
  constructor
  · rintro ⟨⟨log, a⟩, hm, rfl⟩
    exact ⟨log, hm⟩
  · rintro ⟨log, hm⟩
    exact ⟨(log, a), hm, rfl⟩

theorem plain_of_run (h : m.run = .ok (log, a)) : m.plain = .ok a := plain_ok_iff.mpr ⟨log, h⟩

@[simp] theorem plain_bind : (m >>= f).plain = m.plain >>= fun a => (f a).plain := by
  rw [plain, run_bind, plain]
  cases m.run with
  | error e => rfl
  | ok r =>
    change Prod.snd <$> ((f r.2).run >>= fun r' => pure (r.1 ++ r'.1, r'.2)) = (f r.2).plain
    rw [plain]
    cases (f r.2).run <;> rfl

theorem plain_bind_congr {n : Except ε α} {g : α → Except ε β} (hm : m.plain = n)
    (hf : ∀ a, (f a).plain = g a) : (m >>= f).plain = n >>= g := by
  rw [plain_bind, hm, funext hf]

@[simp] theorem plain_pure : (pure a : Emitting ε η α).plain = pure a := rfl

@[simp] theorem plain_emit (e : η) : (emit e : Emitting ε η Unit).plain = pure () := rfl

@[simp] theorem plain_lift (m : Except ε α) : (lift m : Emitting ε η α).plain = m := by
  cases m <;> rfl

@[simp] theorem plain_monadLift (m : Except ε α) : (liftM m : Emitting ε η α).plain = m :=
  plain_lift m

/-! ### Kinds of entries -/

/-- The computation logs entries of one kind only. -/
structure Only (P : η → Prop) (m : Emitting ε η α) : Prop where
  forall_mem : ∀ {log a}, m.run = .ok (log, a) → ∀ e ∈ log, P e

namespace Only

variable {P : η → Prop}

theorem pure (a : α) : Only P (Pure.pure a : Emitting ε η α) := by
  constructor
  intro log a' h
  obtain ⟨rfl, -⟩ := run_pure_ok_iff.mp h
  exact List.forall_mem_nil P

theorem monadLift (m : Except ε α) : Only P (liftM m : Emitting ε η α) := by
  constructor
  intro log a h
  obtain ⟨rfl, -⟩ := run_monadLift_ok_iff.mp h
  exact List.forall_mem_nil P

theorem emit {e : η} (he : P e) : Only P (Emitting.emit e : Emitting ε η Unit) := by
  constructor
  intro log u h
  rw [run_emit_ok_iff.mp h]
  exact List.forall_mem_singleton.mpr he

theorem bind (hm : Only P m) (hf : ∀ a, Only P (f a)) : Only P (m >>= f) := by
  constructor
  intro log b h
  obtain ⟨log₁, a, h₁, log₂, h₂, rfl⟩ := run_bind_ok_iff.mp h
  exact List.forall_mem_append.mpr ⟨hm.forall_mem h₁, (hf a).forall_mem h₂⟩

theorem lift_bind {m : Except ε α} (hf : ∀ a, Only P (f a)) :
    Only P ((liftM m : Emitting ε η α) >>= f) := bind (monadLift m) hf

end Only
end Emitting
end EnergyChain
