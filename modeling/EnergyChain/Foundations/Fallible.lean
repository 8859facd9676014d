import Mathlib.Data.List.Forall2
import Mathlib.Tactic

/-!
# Computations that may fail

Inversion of sequences of steps and of loops in `Except`: one that succeeds has
succeeded at every step.
-/

namespace EnergyChain

variable {ε α β : Type}

@[simp] theorem except_bind_ok_iff {m : Except ε α} {f : α → Except ε β} {b : β} :
    (m >>= f) = .ok b ↔ ∃ a, m = .ok a ∧ f a = .ok b := by
  cases m with
  | error e => simp [bind, Except.bind]
  | ok a => simp [bind, Except.bind]

@[simp] theorem except_pure_ok_iff {a b : α} : (pure a : Except ε α) = .ok b ↔ a = b := by
  simp [pure, Except.pure]

theorem except_map_ok_iff {m : Except ε α} {f : α → β} {b : β} :
    f <$> m = .ok b ↔ ∃ a, m = .ok a ∧ f a = b := by
  cases m <;> simp [Functor.map, Except.map]

theorem except_ok_bind (a : α) (f : α → Except ε β) : (.ok a >>= f) = f a := rfl

theorem mapM_ok_iff {f : α → Except ε β} {xs : List α} {ys : List β} :
    xs.mapM f = .ok ys ↔ List.Forall₂ (fun x y => f x = .ok y) xs ys := by
  induction xs generalizing ys with
  | nil =>
    rw [List.mapM_nil, except_pure_ok_iff, List.forall₂_nil_left_iff, eq_comm]
  | cons x xs ih =>
    rw [List.mapM_cons, except_bind_ok_iff]
    simp only [except_bind_ok_iff, ih, except_pure_ok_iff, List.forall₂_cons_left_iff]
    constructor
    · rintro ⟨y, hy, rest, hrest, rfl⟩
      exact ⟨y, rest, hy, hrest, rfl⟩
    · rintro ⟨y, rest, hy, hrest, rfl⟩
      exact ⟨y, hy, rest, hrest, rfl⟩

theorem exists_of_mem_of_mapM_ok {f : α → Except ε β} {xs : List α} {ys : List β} {x : α}
    (h : xs.mapM f = .ok ys) (hx : x ∈ xs) : ∃ y ∈ ys, f x = .ok y := by
  rw [mapM_ok_iff] at h
  induction h with
  | nil => cases hx
  | cons hy hrest ih =>
    rcases List.mem_cons.mp hx with rfl | hx
    · exact ⟨_, List.mem_cons_self, hy⟩
    · obtain ⟨y, hmem, hy⟩ := ih hx
      exact ⟨y, List.mem_cons_of_mem _ hmem, hy⟩

theorem mapM_eq_filterMap {f : α → Except ε β} {g : α → Option β} {xs : List α}
    (h : ∀ x ∈ xs, ∃ y, f x = .ok y ∧ g x = some y) : xs.mapM f = .ok (xs.filterMap g) := by
  rw [mapM_ok_iff]
  induction xs with
  | nil => exact List.Forall₂.nil
  | cons x xs ih =>
    obtain ⟨y, hf, hg⟩ := h x List.mem_cons_self
    rw [List.filterMap_cons_some hg]
    exact List.Forall₂.cons hf (ih fun x' hx' => h x' (List.mem_cons_of_mem _ hx'))

theorem mapM_eq_map {f : α → Except ε β} {g : α → β} {xs : List α}
    (h : ∀ x ∈ xs, f x = .ok (g x)) : xs.mapM f = .ok (xs.map g) := by
  rw [mapM_eq_filterMap (g := fun x => some (g x)) fun x hx => ⟨g x, h x hx, rfl⟩,
    List.filterMap_eq_map']

end EnergyChain
