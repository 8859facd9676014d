import Mathlib.Tactic

/-!
# Asynchronous programs

A program of a single-threaded process with memory `μ` that awaits requests
`ρ` to servers with state `σ`. The process runs alone from one await to the
next. At an await the servers may first have moved on by themselves, the
request may fail before or after its effect took place, and the process may
be killed. A run is described by the state it starts in, its outcome and the
state it leaves.
-/

namespace EnergyChain

/-- Programs over the requests `ρ`: an await continues with the response to its
request, or with the error it was rejected with. -/
inductive Async (ρ : Type) (response : ρ → Type) (μ ε α : Type) where
  | pure (a : α)
  | throw (e : ε)
  | read (k : μ → Async ρ response μ ε α)
  | write (f : μ → μ) (k : Async ρ response μ ε α)
  | await (q : ρ) (k : Except ε (response q) → Async ρ response μ ε α)

/-- How a run ends; a killed process leaves nothing but the state of the servers. -/
inductive Outcome (ε α : Type) where
  | returned (a : α)
  | threw (e : ε)
  | killed
deriving DecidableEq

/-- The servers that a process awaits. -/
structure Servers (ρ : Type) (response : ρ → Type) (σ ε : Type) where
  serve : (q : ρ) → σ → Except ε (response q) × σ
  /-- Moves the servers make between two awaits. -/
  drift : σ → σ → Prop
  /-- Requests may fail. -/
  Faulty : Prop

namespace Async

variable {ρ σ μ ε α β : Type} {response : ρ → Type}

def bind : Async ρ response μ ε α → (α → Async ρ response μ ε β) → Async ρ response μ ε β
  | .pure a, f => f a
  | .throw e, _ => .throw e
  | .read k, f => .read fun m => (k m).bind f
  | .write g k, f => .write g (k.bind f)
  | .await q k, f => .await q fun r => (k r).bind f

/-- Runs the handler where the program throws. -/
def handle : Async ρ response μ ε α → (ε → Async ρ response μ ε α) → Async ρ response μ ε α
  | .pure a, _ => .pure a
  | .throw e, h => h e
  | .read k, h => .read fun m => (k m).handle h
  | .write g k, h => .write g (k.handle h)
  | .await q k, h => .await q fun r => (k r).handle h

instance : Monad (Async ρ response μ ε) where
  pure := .pure
  bind := .bind

instance : MonadExcept ε (Async ρ response μ ε) where
  throw := .throw
  tryCatch := .handle

/-- Awaits a request; the program throws when it is rejected. -/
def call (q : ρ) : Async ρ response μ ε (response q) :=
  .await q fun
    | .ok b => .pure b
    | .error e => .throw e

def get : Async ρ response μ ε μ := .read .pure

def modify (f : μ → μ) : Async ρ response μ ε Unit := .write f (.pure ())

/-- Does one thing after another for the elements of the list. -/
def forEach (xs : List α) (f : α → Async ρ response μ ε Unit) : Async ρ response μ ε Unit :=
  match xs with
  | [] => .pure ()
  | x :: xs => (f x).bind fun _ => forEach xs f

end Async

variable {ρ σ μ ε α β : Type} {response : ρ → Type}

open Async

/-- `Runs S A p c o c'`: from process memory and server state `c` the program can
end with outcome `o` in `c'`, making only awaits that satisfy `A`. -/
inductive Runs (S : Servers ρ response σ ε) (A : ρ → μ → σ → Prop) :
    Async ρ response μ ε α → μ × σ → Outcome ε α → μ × σ → Prop where
  | pure {a c} : Runs S A (.pure a) c (.returned a) c
  | throw {e c} : Runs S A (.throw e) c (.threw e) c
  | read {k c o c'} : Runs S A (k c.1) c o c' → Runs S A (.read k) c o c'
  | write {f k c o c'} : Runs S A k (f c.1, c.2) o c' → Runs S A (.write f k) c o c'
  | killed {q k c} : Runs S A (.await q k) c .killed c
  | answered {q k m s s₁ o c'} : S.drift s s₁ → A q m s₁ →
      Runs S A (k (S.serve q s₁).1) (m, (S.serve q s₁).2) o c' → Runs S A (.await q k) (m, s) o c'
  | rejected {q k m s s₁ e o c'} : S.Faulty → S.drift s s₁ → A q m s₁ →
      Runs S A (k (.error e)) (m, s₁) o c' → Runs S A (.await q k) (m, s) o c'
  | lost {q k m s s₁ e o c'} : S.Faulty → S.drift s s₁ → A q m s₁ →
      Runs S A (k (.error e)) (m, (S.serve q s₁).2) o c' → Runs S A (.await q k) (m, s) o c'

namespace Runs

variable {S : Servers ρ response σ ε} {A : ρ → μ → σ → Prop} {c c' : μ × σ}

/-- A run of a sequence passes through a return of its first part or ends there. -/
theorem of_bind {p : Async ρ response μ ε α} {f : α → Async ρ response μ ε β} {o : Outcome ε β}
    (h : Runs S A (p >>= f) c o c') :
    (∃ a c₁, Runs S A p c (.returned a) c₁ ∧ Runs S A (f a) c₁ o c') ∨
    (∃ e, Runs S A p c (.threw e) c' ∧ o = .threw e) ∨
    (Runs S A p c .killed c' ∧ o = .killed) := by
  change Runs S A (p.bind f) c o c' at h
  induction p generalizing c with
  | pure a => exact .inl ⟨a, c, .pure, h⟩
  | throw e =>
    cases h
    exact .inr (.inl ⟨e, .throw, rfl⟩)
  | read k ih =>
    cases h with
    | read h =>
      obtain ⟨a, c₁, hp, hf⟩ | ⟨e, hp, ho⟩ | ⟨hp, ho⟩ := ih c.1 h
      · exact .inl ⟨a, c₁, .read hp, hf⟩
      · exact .inr (.inl ⟨e, .read hp, ho⟩)
      · exact .inr (.inr ⟨.read hp, ho⟩)
  | write g k ih =>
    cases h with
    | write h =>
      obtain ⟨a, c₁, hp, hf⟩ | ⟨e, hp, ho⟩ | ⟨hp, ho⟩ := ih h
      · exact .inl ⟨a, c₁, .write hp, hf⟩
      · exact .inr (.inl ⟨e, .write hp, ho⟩)
      · exact .inr (.inr ⟨.write hp, ho⟩)
  | await q k ih =>
    cases h with
    | killed => exact .inr (.inr ⟨.killed, rfl⟩)
    | answered hd hA h =>
      obtain ⟨a, c₁, hp, hf⟩ | ⟨e, hp, ho⟩ | ⟨hp, ho⟩ := ih _ h
      · exact .inl ⟨a, c₁, .answered hd hA hp, hf⟩
      · exact .inr (.inl ⟨e, .answered hd hA hp, ho⟩)
      · exact .inr (.inr ⟨.answered hd hA hp, ho⟩)
    | rejected hS hd hA h =>
      obtain ⟨a, c₁, hp, hf⟩ | ⟨e, hp, ho⟩ | ⟨hp, ho⟩ := ih _ h
      · exact .inl ⟨a, c₁, .rejected hS hd hA hp, hf⟩
      · exact .inr (.inl ⟨e, .rejected hS hd hA hp, ho⟩)
      · exact .inr (.inr ⟨.rejected hS hd hA hp, ho⟩)
    | lost hS hd hA h =>
      obtain ⟨a, c₁, hp, hf⟩ | ⟨e, hp, ho⟩ | ⟨hp, ho⟩ := ih _ h
      · exact .inl ⟨a, c₁, .lost hS hd hA hp, hf⟩
      · exact .inr (.inl ⟨e, .lost hS hd hA hp, ho⟩)
      · exact .inr (.inr ⟨.lost hS hd hA hp, ho⟩)

/-- A run that is caught is one that does not throw, or continues in the handler. -/
theorem of_handle {p : Async ρ response μ ε α} {f : ε → Async ρ response μ ε α}
    {o : Outcome ε α} (h : Runs S A (p.handle f) c o c') :
    (Runs S A p c o c' ∧ ∀ e, o ≠ .threw e) ∨
    ∃ e c₁, Runs S A p c (.threw e) c₁ ∧ Runs S A (f e) c₁ o c' := by
  induction p generalizing c with
  | pure a =>
    cases h
    exact .inl ⟨.pure, nofun⟩
  | throw e => exact .inr ⟨e, c, .throw, h⟩
  | read k ih =>
    cases h with
    | read h =>
      obtain ⟨hp, ho⟩ | ⟨e, c₁, hp, hf⟩ := ih c.1 h
      · exact .inl ⟨.read hp, ho⟩
      · exact .inr ⟨e, c₁, .read hp, hf⟩
  | write g k ih =>
    cases h with
    | write h =>
      obtain ⟨hp, ho⟩ | ⟨e, c₁, hp, hf⟩ := ih h
      · exact .inl ⟨.write hp, ho⟩
      · exact .inr ⟨e, c₁, .write hp, hf⟩
  | await q k ih =>
    cases h with
    | killed => exact .inl ⟨.killed, nofun⟩
    | answered hd hA h =>
      obtain ⟨hp, ho⟩ | ⟨e, c₁, hp, hf⟩ := ih _ h
      · exact .inl ⟨.answered hd hA hp, ho⟩
      · exact .inr ⟨e, c₁, .answered hd hA hp, hf⟩
    | rejected hS hd hA h =>
      obtain ⟨hp, ho⟩ | ⟨e, c₁, hp, hf⟩ := ih _ h
      · exact .inl ⟨.rejected hS hd hA hp, ho⟩
      · exact .inr ⟨e, c₁, .rejected hS hd hA hp, hf⟩
    | lost hS hd hA h =>
      obtain ⟨hp, ho⟩ | ⟨e, c₁, hp, hf⟩ := ih _ h
      · exact .inl ⟨.lost hS hd hA hp, ho⟩
      · exact .inr ⟨e, c₁, .lost hS hd hA hp, hf⟩

theorem mono {A' : ρ → μ → σ → Prop} (hA : ∀ q m s, A q m s → A' q m s)
    {p : Async ρ response μ ε α} {o : Outcome ε α} (h : Runs S A p c o c') : Runs S A' p c o c' := by
  induction h with
  | pure => exact .pure
  | throw => exact .throw
  | read _ ih => exact .read ih
  | write _ ih => exact .write ih
  | killed => exact .killed
  | answered hd hq _ ih => exact .answered hd (hA _ _ _ hq) ih
  | rejected hS hd hq _ ih => exact .rejected hS hd (hA _ _ _ hq) ih
  | lost hS hd hq _ ih => exact .lost hS hd (hA _ _ _ hq) ih

/-- A run that starts with an await is killed at it or has made it. -/
theorem first_await {q : ρ} {f : response q → Async ρ response μ ε α} {o : Outcome ε α}
    (h : Runs S A (Async.call q >>= f) c o c') :
    (o = .killed ∧ c' = c) ∨ ∃ s₁, S.drift c.2 s₁ ∧ A q c.1 s₁ := by
  cases h with
  | killed => exact .inl ⟨rfl, rfl⟩
  | answered hd hA h => exact .inr ⟨_, hd, hA⟩
  | rejected hS hd hA h => exact .inr ⟨_, hd, hA⟩
  | lost hS hd hA h => exact .inr ⟨_, hd, hA⟩

end Runs

/-! ### Rules for the programs -/

/-- From a state with `P` the program returns only in states with `Q`, and when it
throws or is killed it leaves `X`. -/
def Holds (S : Servers ρ response σ ε) (A : ρ → μ → σ → Prop) (P : μ × σ → Prop)
    (p : Async ρ response μ ε α) (Q : α → μ × σ → Prop) (X : μ × σ → Prop) : Prop :=
  ∀ c o c', P c → Runs S A p c o c' →
    match o with
    | .returned a => Q a c'
    | _ => X c'

namespace Holds

variable {S : Servers ρ response σ ε} {A : ρ → μ → σ → Prop} {P P' : μ × σ → Prop}
  {Q Q' : α → μ × σ → Prop} {X X' : μ × σ → Prop} {p : Async ρ response μ ε α}

theorem mono (h : Holds S A P p Q X) (hP : ∀ c, P' c → P c) (hQ : ∀ a c, Q a c → Q' a c)
    (hX : ∀ c, X c → X' c) : Holds S A P' p Q' X' := by
  intro c o c' hc hrun
  have hpost := h c o c' (hP c hc) hrun
  cases o with
  | returned a => exact hQ a c' hpost
  | threw e => exact hX c' hpost
  | killed => exact hX c' hpost

theorem assume {φ : Prop} (h : φ → Holds S A P p Q X) : Holds S A (fun c => P c ∧ φ) p Q X := by
  intro c o c' hc hrun
  exact h hc.2 c o c' hc.1 hrun

theorem ofExists {ι : Type} {P : ι → μ × σ → Prop} (h : ∀ i, Holds S A (P i) p Q X) :
    Holds S A (fun c => ∃ i, P i c) p Q X := by
  rintro c o c' ⟨i, hc⟩ hrun
  exact h i c o c' hc hrun

theorem and (h : Holds S A P p Q X) (h' : Holds S A P' p Q' X') :
    Holds S A (fun c => P c ∧ P' c) p (fun a c => Q a c ∧ Q' a c) fun c => X c ∧ X' c := by
  intro c o c' hc hrun
  have hpost := h c o c' hc.1 hrun
  have hpost' := h' c o c' hc.2 hrun
  cases o with
  | returned a => exact ⟨hpost, hpost'⟩
  | threw e => exact ⟨hpost, hpost'⟩
  | killed => exact ⟨hpost, hpost'⟩

theorem pure {a : α} (h : ∀ c, P c → Q a c) :
    Holds S A P (Pure.pure a : Async ρ response μ ε α) Q X := by
  intro c o c' hc hrun
  cases hrun
  exact h c hc

theorem bind {f : α → Async ρ response μ ε β} {R : β → μ × σ → Prop}
    (hp : Holds S A P p Q X) (hf : ∀ a, Holds S A (Q a) (f a) R X) :
    Holds S A P (p >>= f) R X := by
  intro c o c' hc hrun
  obtain ⟨a, c₁, hp₁, hf₁⟩ | ⟨e, hp₁, rfl⟩ | ⟨hp₁, rfl⟩ := hrun.of_bind
  · exact hf a c₁ o c' (hp c _ c₁ hc hp₁) hf₁
  · exact hp c _ c' hc hp₁
  · exact hp c _ c' hc hp₁

theorem tryCatch {f : ε → Async ρ response μ ε α} (hp : Holds S A P p Q X)
    (hf : ∀ e, Holds S A X (f e) Q X') (hX : ∀ c, X c → X' c) :
    Holds S A P (MonadExcept.tryCatch p f) Q X' := by
  intro c o c' hc hrun
  obtain ⟨hp₁, ho⟩ | ⟨e, c₁, hp₁, hf₁⟩ := hrun.of_handle
  · have hpost := hp c o c' hc hp₁
    cases o with
    | returned a => exact hpost
    | threw e => exact absurd rfl (ho e)
    | killed => exact hX c' hpost
  · exact hf e c₁ o c' (hp c _ c₁ hc hp₁) hf₁

theorem get : Holds S A P (Async.get : Async ρ response μ ε μ) (fun m c => P c ∧ c.1 = m) X := by
  intro c o c' hc hrun
  cases hrun with
  | read hrun =>
    cases hrun
    exact ⟨hc, rfl⟩

theorem modify {f : μ → μ} {R : Unit → μ × σ → Prop} (h : ∀ c, P c → R () (f c.1, c.2)) :
    Holds S A P (Async.modify f : Async ρ response μ ε Unit) R X := by
  intro c o c' hc hrun
  cases hrun with
  | write hrun =>
    cases hrun
    exact h c hc

/-- What an awaited request is answered, and what it leaves when it fails or the
process is killed at it. -/
theorem call {q : ρ} {R : response q → μ × σ → Prop} (hkilled : ∀ c, P c → X c)
    (hserve : ∀ m s s₁, P (m, s) → S.drift s s₁ → A q m s₁ →
      match (S.serve q s₁).1 with
      | .ok b => R b (m, (S.serve q s₁).2)
      | .error _ => X (m, (S.serve q s₁).2))
    (hfail : S.Faulty → ∀ m s s₁, P (m, s) → S.drift s s₁ → A q m s₁ →
      X (m, s₁) ∧ X (m, (S.serve q s₁).2)) :
    Holds S A P (Async.call q : Async ρ response μ ε (response q)) R X := by
  intro c o c' hc hrun
  cases hrun with
  | killed => exact hkilled c hc
  | answered hd hA hrun =>
    have hpost := hserve _ _ _ hc hd hA
    cases hres : (S.serve q _).1 with
    | ok b =>
      rw [hres] at hrun hpost
      cases hrun
      exact hpost
    | error e =>
      rw [hres] at hrun hpost
      cases hrun
      exact hpost
  | rejected hS hd hA hrun =>
    cases hrun
    exact (hfail hS _ _ _ hc hd hA).1
  | lost hS hd hA hrun =>
    cases hrun
    exact (hfail hS _ _ _ hc hd hA).2

/-- A loop keeps an invariant over the elements that are left. -/
theorem forEach {γ : Type} {xs : List γ} {f : γ → Async ρ response μ ε Unit}
    {I : List γ → μ × σ → Prop}
    (h : ∀ x xs, Holds S A (I (x :: xs)) (f x) (fun _ => I xs) X) :
    Holds S A (I xs) (Async.forEach xs f) (fun _ => I []) X := by
  induction xs with
  | nil => exact pure fun _ hc => hc
  | cons x xs ih => exact bind (h x xs) fun _ => ih

/-- A loop keeps what its body keeps for every element. -/
theorem forEach_keeps {γ : Type} {xs : List γ} {f : γ → Async ρ response μ ε Unit}
    {I : μ × σ → Prop} (h : ∀ x ∈ xs, Holds S A I (f x) (fun _ => I) X) :
    Holds S A I (Async.forEach xs f) (fun _ => I) X := by
  induction xs with
  | nil => exact pure fun _ hc => hc
  | cons x xs ih =>
    exact bind (h x List.mem_cons_self) fun _ => ih fun y hy => h y (List.mem_cons_of_mem x hy)

end Holds

/-! ### Programs that keep to some awaits -/

/-- However they are answered, the awaits of the program satisfy `Q`, and its writes `W`. -/
def Async.Within (Q : ρ → Prop) (W : (μ → μ) → Prop) : Async ρ response μ ε α → Prop
  | .pure _ => True
  | .throw _ => True
  | .read k => ∀ m, (k m).Within Q W
  | .write f k => W f ∧ k.Within Q W
  | .await q k => Q q ∧ ∀ r, (k r).Within Q W

namespace Async.Within

variable {Q Q' : ρ → Prop} {W W' : (μ → μ) → Prop} {p : Async ρ response μ ε α}

theorem call {q : ρ} (h : Q q) :
    (Async.call q : Async ρ response μ ε (response q)).Within Q W := by
  refine ⟨h, fun r => ?_⟩
  cases r <;> trivial

theorem bind {f : α → Async ρ response μ ε β} (hp : p.Within Q W)
    (hf : ∀ a, (f a).Within Q W) : (p >>= f).Within Q W := by
  change (p.bind f).Within Q W
  induction p with
  | pure a => exact hf a
  | throw e => trivial
  | read k ih => exact fun m => ih m (hp m)
  | write g k ih => exact ⟨hp.1, ih hp.2⟩
  | await q k ih => exact ⟨hp.1, fun r => ih r (hp.2 r)⟩

theorem tryCatch {f : ε → Async ρ response μ ε α} (hp : p.Within Q W)
    (hf : ∀ e, (f e).Within Q W) : (MonadExcept.tryCatch p f).Within Q W := by
  change (p.handle f).Within Q W
  induction p with
  | pure a => trivial
  | throw e => exact hf e
  | read k ih => exact fun m => ih m (hp m)
  | write g k ih => exact ⟨hp.1, ih hp.2⟩
  | await q k ih => exact ⟨hp.1, fun r => ih r (hp.2 r)⟩

theorem forEach {xs : List β} {f : β → Async ρ response μ ε Unit}
    (h : ∀ x, (f x).Within Q W) : (Async.forEach xs f).Within Q W := by
  induction xs with
  | nil => trivial
  | cons x xs ih => exact bind (h x) fun _ => ih

theorem mono (h : p.Within Q W) (hQ : ∀ q, Q q → Q' q) (hW : ∀ f, W f → W' f) :
    p.Within Q' W' := by
  induction p with
  | pure a => trivial
  | throw e => trivial
  | read k ih => exact fun m => ih m (h m)
  | write f k ih => exact ⟨hW f h.1, ih h.2⟩
  | await q k ih => exact ⟨hQ q h.1, fun r => ih r (h.2 r)⟩

/-- A program keeps what its awaits and its writes keep, however it ends. -/
theorem holds {S : Servers ρ response σ ε} {A : ρ → μ → σ → Prop} {I : μ × σ → Prop}
    (h : p.Within Q W) (hdrift : ∀ m s s', I (m, s) → S.drift s s' → I (m, s'))
    (hserve : ∀ q m s, Q q → I (m, s) → I (m, (S.serve q s).2))
    (hwrite : ∀ f m s, W f → I (m, s) → I (f m, s)) : Holds S A I p (fun _ => I) I := by
  intro c o c' hc hrun
  induction hrun with
  | pure => exact hc
  | throw => exact hc
  | killed => exact hc
  | read hrun ih => exact ih (h _) hc
  | write hrun ih => exact ih h.2 (hwrite _ _ _ h.1 hc)
  | answered hd hA hrun ih => exact ih (h.2 _) (hserve _ _ _ h.1 (hdrift _ _ _ hc hd))
  | rejected hS hd hA hrun ih => exact ih (h.2 _) (hdrift _ _ _ hc hd)
  | lost hS hd hA hrun ih => exact ih (h.2 _) (hserve _ _ _ h.1 (hdrift _ _ _ hc hd))

end Async.Within

/-! ### Undisturbed runs -/

/-- The outcome when the servers only answer. -/
def Async.exec (S : Servers ρ response σ ε) :
    Async ρ response μ ε α → μ × σ → Outcome ε α × (μ × σ)
  | .pure a, c => (.returned a, c)
  | .throw e, c => (.threw e, c)
  | .read k, c => (k c.1).exec S c
  | .write f k, c => k.exec S (f c.1, c.2)
  | .await q k, c => (k (S.serve q c.2).1).exec S (c.1, (S.serve q c.2).2)

/-- Every await of the undisturbed run satisfies `A`. -/
def Async.Admitted (S : Servers ρ response σ ε) (A : ρ → μ → σ → Prop) :
    Async ρ response μ ε α → μ × σ → Prop
  | .pure _, _ => True
  | .throw _, _ => True
  | .read k, c => (k c.1).Admitted S A c
  | .write f k, c => k.Admitted S A (f c.1, c.2)
  | .await q k, c =>
    A q c.1 c.2 ∧ (k (S.serve q c.2).1).Admitted S A (c.1, (S.serve q c.2).2)

instance Async.decidableAdmitted (S : Servers ρ response σ ε) (A : ρ → μ → σ → Prop)
    [∀ q m s, Decidable (A q m s)] (p : Async ρ response μ ε α) (c : μ × σ) :
    Decidable (p.Admitted S A c) :=
  match p with
  | .pure _ => .isTrue trivial
  | .throw _ => .isTrue trivial
  | .read k => decidableAdmitted S A (k c.1) c
  | .write f k => decidableAdmitted S A k (f c.1, c.2)
  | .await q k =>
    have := decidableAdmitted S A (k (S.serve q c.2).1) (c.1, (S.serve q c.2).2)
    inferInstanceAs (Decidable (A q c.1 c.2 ∧ _))

theorem Async.Admitted.mono {S : Servers ρ response σ ε} {A A' : ρ → μ → σ → Prop}
    (hA : ∀ q m s, A q m s → A' q m s) {p : Async ρ response μ ε α} {c : μ × σ}
    (h : p.Admitted S A c) : p.Admitted S A' c := by
  induction p generalizing c with
  | pure a => trivial
  | throw e => trivial
  | read k ih => exact ih _ h
  | write f k ih => exact ih h
  | await q k ih => exact ⟨hA _ _ _ h.1, ih _ h.2⟩

theorem Runs.exec {S : Servers ρ response σ ε} {A : ρ → μ → σ → Prop}
    (hdrift : ∀ s, S.drift s s) {p : Async ρ response μ ε α} {c : μ × σ}
    (h : p.Admitted S A c) : Runs S A p c (p.exec S c).1 (p.exec S c).2 := by
  induction p generalizing c with
  | pure a => exact .pure
  | throw e => exact .throw
  | read k ih => exact .read (ih _ h)
  | write f k ih => exact .write (ih h)
  | await q k ih => exact .answered (hdrift _) h.1 (ih _ h.2)

end EnergyChain
