import Mathlib.Tactic

/-!
# Runs of a message handler

A handler takes a state and a message to a new state and either a response or
an error; the state it leaves on an error is its own, nothing is rolled back
for it. A run delivers messages one after another. Next to the state reached
it determines the history: the messages that were accepted, in order.
-/

namespace EnergyChain

/-- Transition of a message server. -/
abbrev Handler (σ μ ε ρ : Type*) := σ → μ → σ × Except ε ρ

namespace Handler

variable {σ μ ε ρ : Type*} (h : Handler σ μ ε ρ)

def Accepts (s : σ) (m : μ) : Prop := ∃ r, (h s m).2 = .ok r

instance (s : σ) (m : μ) : Decidable (h.Accepts s m) :=
  match hr : (h s m).2 with
  | .ok r => isTrue ⟨r, hr⟩
  | .error e => isFalse fun ⟨r, hok⟩ => by simp [hr] at hok

def run (s : σ) (ms : List μ) : σ := ms.foldl (fun s m => (h s m).1) s

/-- The accepted messages of a run, in the order of their delivery. -/
def history : σ → List μ → List μ
  | _, [] => []
  | s, m :: ms => (if h.Accepts s m then [m] else []) ++ history (h s m).1 ms

/-- Every message of the list is accepted when they are delivered in order. -/
def AcceptsAll : σ → List μ → Prop
  | _, [] => True
  | s, m :: ms => h.Accepts s m ∧ AcceptsAll (h s m).1 ms

@[simp] theorem run_nil (s : σ) : h.run s [] = s := rfl

@[simp] theorem run_cons (s : σ) (m : μ) (ms : List μ) :
    h.run s (m :: ms) = h.run (h s m).1 ms := rfl

theorem run_append (s : σ) (ms ms' : List μ) :
    h.run s (ms ++ ms') = h.run (h.run s ms) ms' := List.foldl_append

theorem history_append (s : σ) (ms ms' : List μ) :
    h.history s (ms ++ ms') = h.history s ms ++ h.history (h.run s ms) ms' := by
  induction ms generalizing s with
  | nil => rfl
  | cons m ms ih => simp [history, ih]

theorem history_sublist (s : σ) (ms : List μ) : (h.history s ms).Sublist ms := by
  induction ms generalizing s with
  | nil => exact List.Sublist.refl _
  | cons m ms ih =>
    rw [history]
    split_ifs
    · exact (ih _).cons_cons m
    · exact (ih _).cons m

theorem history_subset (s : σ) (ms : List μ) : h.history s ms ⊆ ms :=
  (h.history_sublist s ms).subset

/-- Nothing has happened where rejected messages change nothing and none was
accepted. -/
theorem run_eq_of_history_nil (hreject : ∀ s m, ¬ h.Accepts s m → (h s m).1 = s) {s : σ}
    {ms : List μ} (hnil : h.history s ms = []) : h.run s ms = s := by
  induction ms with
  | nil => rfl
  | cons m ms ih =>
    rw [history] at hnil
    obtain ⟨hhead, htail⟩ := List.append_eq_nil_iff.mp hnil
    have hrej : ¬ h.Accepts s m := fun hacc => by simp [hacc] at hhead
    rw [hreject s m hrej] at htail
    rw [run_cons, hreject s m hrej]
    exact ih htail

/-- A message of the history was delivered at some point of the run, where the
messages accepted before it are those that stand before it in the history. -/
theorem exists_of_history_eq {s : σ} {ms before after : List μ} {m : μ}
    (heq : h.history s ms = before ++ m :: after) :
    ∃ pre post, ms = pre ++ m :: post ∧ h.history s pre = before ∧ h.Accepts (h.run s pre) m := by
  induction ms generalizing s before with
  | nil => cases before <;> cases heq
  | cons x ms ih =>
    by_cases hacc : h.Accepts s x
    · rw [history, if_pos hacc, List.singleton_append] at heq
      cases before with
      | nil =>
        obtain ⟨rfl, -⟩ := List.cons.inj heq
        exact ⟨[], ms, rfl, rfl, hacc⟩
      | cons b before =>
        obtain ⟨rfl, htail⟩ := List.cons.inj heq
        obtain ⟨pre, post, rfl, hpre, hm⟩ := ih htail
        refine ⟨x :: pre, post, rfl, ?_, hm⟩
        rw [history, if_pos hacc, hpre, List.singleton_append]
    · rw [history, if_neg hacc, List.nil_append] at heq
      obtain ⟨pre, post, rfl, hpre, hm⟩ := ih heq
      refine ⟨x :: pre, post, rfl, ?_, hm⟩
      rw [history, if_neg hacc, hpre, List.nil_append]

theorem mem_history {s : σ} {pre post : List μ} {m : μ} (hacc : h.Accepts (h.run s pre) m) :
    m ∈ h.history s (pre ++ m :: post) := by
  rw [history_append, history, if_pos hacc]
  simp

/-- Induction along a run: a relation between the state and the accepted
messages that holds at the start, is kept by every rejected message and is
extended by every accepted one, holds at the end. -/
theorem run_induction {P : σ → List μ → Prop} {s : σ} (ms : List μ) (start : P s [])
    (accept : ∀ s hist, P s hist → ∀ m ∈ ms, h.Accepts s m → P (h s m).1 (hist ++ [m]))
    (reject : ∀ s hist, P s hist → ∀ m ∈ ms, ¬ h.Accepts s m → P (h s m).1 hist) :
    P (h.run s ms) (h.history s ms) := by
  -- The history already collected is generalized to carry it through the list.
  have key : ∀ (ms' : List μ) (s : σ) (hist : List μ), ms' ⊆ ms → P s hist →
      P (h.run s ms') (hist ++ h.history s ms') := by
    intro ms'
    induction ms' with
    | nil =>
      intro s hist _ hp
      simpa [history] using hp
    | cons m ms' ih =>
      intro s hist hsub hp
      have hm := hsub List.mem_cons_self
      have htl : ms' ⊆ ms := fun x hx => hsub (List.mem_cons_of_mem _ hx)
      by_cases hacc : h.Accepts s m
      · simpa [history, hacc] using ih _ _ htl (accept s hist hp m hm hacc)
      · simpa [history, hacc] using ih _ _ htl (reject s hist hp m hm hacc)
  simpa using key ms s [] (List.Subset.refl ms) start

theorem run_invariant {P : σ → Prop} {s : σ} (ms : List μ) (start : P s)
    (step : ∀ s, P s → ∀ m ∈ ms, P (h s m).1) : P (h.run s ms) :=
  h.run_induction (P := fun s _ => P s) ms start
    (fun s _ hp m hm _ => step s hp m hm) (fun s _ hp m hm _ => step s hp m hm)

end Handler
end EnergyChain
