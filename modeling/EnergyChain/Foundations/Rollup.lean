import Mathlib.Data.List.Sort
import Mathlib.Order.Bounds.Basic
import Mathlib.Tactic

/-!
# Incremental roll-ups

Items with a time are grouped into buckets of a fixed width. A table keeps, for each
bucket, the items from which its entry was last computed. A refresh reads the items
strictly after the start of the latest bucket in the table, and replaces the entries
of the buckets that these items fall in.

For items that arrive in the order of their times, the table of a last refresh is that
of one refresh over all items exactly if every refresh before it is timely: a bucket
with an item on its very start is not read again.
-/

namespace EnergyChain

structure Rollup (α : Type*) where
  time : α → ℕ
  width : ℕ
  width_pos : 0 < width

namespace Rollup

variable {α : Type*} (r : Rollup α)

/-! ### Buckets -/

/-- The start of the bucket that the item falls in. -/
def start (x : α) : ℕ := r.time x / r.width * r.width

variable {r} in
theorem start_le_time (x : α) : r.start x ≤ r.time x := Nat.div_mul_le_self ..

theorem start_mono {x y : α} (h : r.time x ≤ r.time y) : r.start x ≤ r.start y :=
  Nat.mul_le_mul_right _ (Nat.div_le_div_right h)

theorem start_le_start {x y : α} (h : r.start x ≤ r.time y) : r.start x ≤ r.start y := by
  have hdiv := Nat.div_le_div_right (c := r.width) h
  rw [start, Nat.mul_div_cancel _ r.width_pos] at hdiv
  exact Nat.mul_le_mul_right _ hdiv

def bucket (xs : List α) (b : ℕ) : List α := xs.filter fun x => r.start x = b

def after (since : ℕ) (xs : List α) : List α := xs.filter fun x => since < r.time x

variable {r} {xs ys : List α} {x : α} {b since : ℕ}

@[simp] theorem mem_bucket : x ∈ r.bucket xs b ↔ x ∈ xs ∧ r.start x = b := by
  simp [bucket]

@[simp] theorem mem_after : x ∈ r.after since xs ↔ x ∈ xs ∧ since < r.time x := by
  simp [after]

@[simp] theorem bucket_append : r.bucket (xs ++ ys) b = r.bucket xs b ++ r.bucket ys b :=
  List.filter_append ..

@[simp] theorem after_append :
    r.after since (xs ++ ys) = r.after since xs ++ r.after since ys :=
  List.filter_append ..

theorem bucket_eq_nil : r.bucket xs b = [] ↔ ∀ x ∈ xs, r.start x ≠ b := by
  simp [bucket]

/-- A bucket that starts after a time is read in full. -/
theorem bucket_after_of_lt (h : since < b) :
    r.bucket (r.after since xs) b = r.bucket xs b := by
  rw [bucket, bucket, after, List.filter_filter]
  refine List.filter_congr fun x _ => ?_
  have := start_le_time (r := r) x
  by_cases hx : r.start x = b <;> simp [hx]
  omega

theorem after_sublist : (r.after since xs).Sublist (r.after 0 xs) := by
  refine List.monotone_filter_right xs fun x hx => ?_
  simp only [decide_eq_true_eq] at hx ⊢
  omega

/-! ### The table -/

/-- The items that refreshes have seen and those that arrived after the last refresh,
and the items each entry was computed from, none for a bucket without an entry. -/
structure Table (α : Type*) where
  processed : List α
  pending : List α
  sources : ℕ → List α
  since : ℕ
  le_since : ∀ {b}, sources b ≠ [] → b ≤ since
  since_mem : since = 0 ∨ sources since ≠ []

theorem latest_unique {p : ℕ → Prop} {m n : ℕ} (hm : ∀ {b}, p b → b ≤ m) (hm' : m = 0 ∨ p m)
    (hn : ∀ {b}, p b → b ≤ n) (hn' : n = 0 ∨ p n) : m = n := by
  apply le_antisymm
  · rcases hm' with rfl | h
    · exact Nat.zero_le n
    · exact hn h
  · rcases hn' with rfl | h
    · exact Nat.zero_le m
    · exact hm h

theorem le_foldr_max {l : List ℕ} {n m : ℕ} (h : m = n ∨ m ∈ l) : m ≤ l.foldr max n := by
  induction l with
  | nil =>
    rcases h with rfl | h
    · exact le_rfl
    · exact absurd h List.not_mem_nil
  | cons a l ih =>
    simp only [List.mem_cons] at h
    rw [List.foldr_cons]
    rcases h with h | rfl | h
    · exact (ih (Or.inl h)).trans (le_max_right ..)
    · exact le_max_left ..
    · exact (ih (Or.inr h)).trans (le_max_right ..)

theorem foldr_max_eq (l : List ℕ) (n : ℕ) : l.foldr max n = n ∨ l.foldr max n ∈ l := by
  induction l with
  | nil => exact Or.inl rfl
  | cons a l ih =>
    rw [List.foldr_cons]
    rcases max_choice a (l.foldr max n) with h | h
    · rw [h]
      exact Or.inr List.mem_cons_self
    · rw [h]
      exact ih.imp id (List.mem_cons_of_mem a)

namespace Table

def empty : Table α where
  processed := []
  pending := []
  sources _ := []
  since := 0
  le_since h := absurd rfl h
  since_mem := Or.inl rfl

variable (t : Table α)

def items : List α := t.processed ++ t.pending

def insert (x : α) : Table α := { t with pending := t.pending ++ [x] }

variable (r) in
/-- The items that a refresh reads. -/
def fresh : List α := r.after t.since t.items

variable (r) in
def refresh : Table α where
  processed := t.items
  pending := []
  sources b := if (r.bucket (t.fresh r) b).isEmpty then t.sources b else r.bucket (t.fresh r) b
  since := ((t.fresh r).map r.start).foldr max t.since
  le_since {b} h := by
    split_ifs at h with hempty
    · exact (t.le_since h).trans (le_foldr_max (Or.inl rfl))
    · obtain ⟨x, hx⟩ := List.exists_mem_of_ne_nil _ h
      obtain ⟨hfresh, rfl⟩ := mem_bucket.1 hx
      exact le_foldr_max (Or.inr (List.mem_map_of_mem hfresh))
  since_mem := by
    rcases foldr_max_eq ((t.fresh r).map r.start) t.since with h | h
    · rw [h]
      refine t.since_mem.imp id fun hne => ?_
      split_ifs with hempty
      · exact hne
      · simpa using hempty
    · obtain ⟨x, hx, hstart⟩ := List.mem_map.1 h
      have hmem : x ∈ r.bucket (t.fresh r) (((t.fresh r).map r.start).foldr max t.since) :=
        mem_bucket.2 ⟨hx, hstart⟩
      rw [if_neg (by simpa using List.ne_nil_of_mem hmem)]
      exact Or.inr (List.ne_nil_of_mem hmem)

variable {t}

theorem refresh_sources_of_nil (h : r.bucket (t.fresh r) b = []) :
    (t.refresh r).sources b = t.sources b := by
  simp [refresh, h]

theorem refresh_sources_of_ne_nil (h : r.bucket (t.fresh r) b ≠ []) :
    (t.refresh r).sources b = r.bucket (t.fresh r) b := by
  simp [refresh, h]

theorem since_le_refresh_since : t.since ≤ (t.refresh r).since :=
  le_foldr_max (Or.inl rfl)

variable (r t) in
/-- Every entry is computed from all items of its bucket. -/
def Exact : Prop := ∀ b, t.sources b = r.bucket (r.after 0 t.processed) b

end Table

/-! ### Runs -/

inductive Op (α : Type*) where
  | insert (x : α)
  | refresh

variable (r) in
def step (t : Table α) : Op α → Table α
  | .insert x => t.insert x
  | .refresh => t.refresh r

variable (r) in
def run (ops : List (Op α)) : Table α := ops.foldl r.step .empty

def inserted (ops : List (Op α)) : List α :=
  ops.filterMap fun op =>
    match op with
    | .insert x => some x
    | .refresh => none

variable {ops ops' : List (Op α)}

@[simp] theorem inserted_nil : inserted ([] : List (Op α)) = [] := rfl

@[simp] theorem inserted_append : inserted (ops ++ ops') = inserted ops ++ inserted ops' :=
  List.filterMap_append ..

@[simp] theorem inserted_cons_insert : inserted (.insert x :: ops) = x :: inserted ops := rfl

@[simp] theorem inserted_cons_refresh : inserted (.refresh :: ops) = inserted ops := rfl

@[simp] theorem run_append_insert : r.run (ops ++ [.insert x]) = (r.run ops).insert x := by
  simp [run, step]

@[simp] theorem run_append_refresh : r.run (ops ++ [.refresh]) = (r.run ops).refresh r := by
  simp [run, step]

theorem items_run : (r.run ops).items = inserted ops := by
  induction ops using List.reverseRecOn with
  | nil => rfl
  | append_singleton ops op ih =>
    cases op with
    | insert x =>
      rw [run_append_insert, inserted_append, ← ih]
      simp [Table.insert, Table.items]
    | refresh =>
      rw [run_append_refresh, inserted_append, ← ih]
      simp [Table.refresh, Table.items]

/-- Entries are computed from items of their buckets, in the order of arrival. -/
theorem sources_run_sublist :
    ((r.run ops).sources b).Sublist (r.bucket (r.after 0 (r.run ops).processed) b) := by
  induction ops using List.reverseRecOn with
  | nil => exact List.nil_sublist _
  | append_singleton ops op ih =>
    cases op with
    | insert x => rwa [run_append_insert]
    | refresh =>
      rw [run_append_refresh]
      by_cases h : r.bucket ((r.run ops).fresh r) b = []
      · rw [Table.refresh_sources_of_nil h]
        refine ih.trans ?_
        simp [Table.refresh, Table.items]
      · rw [Table.refresh_sources_of_ne_nil h]
        exact after_sublist.filter _

theorem inserted_map_insert : inserted (xs.map Op.insert) = xs := by
  simp [inserted, List.filterMap_map]

theorem sources_run_map_insert : (r.run (xs.map .insert)).sources b = [] := by
  induction xs using List.reverseRecOn with
  | nil => rfl
  | append_singleton xs x ih =>
    rw [List.map_append, List.map_singleton, run_append_insert]
    exact ih

theorem processed_run_append_refresh :
    (r.run (ops ++ [.refresh])).processed = inserted ops := by
  rw [run_append_refresh]
  exact items_run

/-! ### Arrival in the order of time -/

variable (r) in
def Sorted (xs : List α) : Prop := xs.Pairwise fun x y => r.time x ≤ r.time y

variable (r) in
def latest (xs : List α) : ℕ := (xs.getLast?.map r.start).getD 0

theorem latest_of_getLast? (h : xs.getLast? = some x) : r.latest xs = r.start x := by
  simp [latest, h]

variable {y : α}

theorem Sorted.time_le_last (h : r.Sorted xs) (hlast : xs.getLast? = some x) (hy : y ∈ xs) :
    r.time y ≤ r.time x := by
  rcases List.eq_nil_or_concat' xs with rfl | ⟨front, z, rfl⟩
  · exact absurd hy List.not_mem_nil
  · obtain rfl : z = x := by simpa using hlast
    rcases List.mem_append.1 hy with hy | hy
    · exact (List.pairwise_append.1 h).2.2 y hy z List.mem_cons_self
    · rw [List.mem_singleton.1 hy]

theorem Sorted.time_last_le (h : r.Sorted (xs ++ ys)) (hlast : xs.getLast? = some x)
    (hy : y ∈ ys) : r.time x ≤ r.time y :=
  (List.pairwise_append.1 h).2.2 x (List.mem_of_getLast? hlast) y hy

theorem Sorted.start_le_latest (h : r.Sorted xs) (hx : x ∈ xs) : r.start x ≤ r.latest xs := by
  cases hlast : xs.getLast? with
  | none =>
    rw [List.getLast?_eq_none_iff.1 hlast] at hx
    exact absurd hx List.not_mem_nil
  | some z =>
    rw [latest_of_getLast? hlast]
    exact start_mono (r := r) (h.time_le_last hlast hx)

theorem Sorted.latest_le_latest (h : r.Sorted (xs ++ ys)) :
    r.latest xs ≤ r.latest (xs ++ ys) := by
  cases hlast : xs.getLast? with
  | none => simp [latest, hlast]
  | some x =>
    rw [latest_of_getLast? hlast]
    exact h.start_le_latest (List.mem_append_left ys (List.mem_of_getLast? hlast))

theorem since_run (h : r.Sorted (inserted ops)) :
    (r.run ops).since = r.latest (r.run ops).processed := by
  induction ops using List.reverseRecOn with
  | nil => rfl
  | append_singleton ops op ih =>
    rw [inserted_append] at h
    have ht := ih (List.pairwise_append.1 h).1
    cases op with
    | insert x => rwa [run_append_insert]
    | refresh =>
      have hsorted : r.Sorted (r.run ops).items := by
        rw [items_run]
        exact (List.pairwise_append.1 h).1
      rw [run_append_refresh]
      apply le_antisymm
      · rcases foldr_max_eq (((r.run ops).fresh r).map r.start) (r.run ops).since with hmax | hmax
        · refine hmax.le.trans ?_
          rw [ht]
          exact hsorted.latest_le_latest
        · obtain ⟨x, hx, hstart⟩ := List.mem_map.1 hmax
          refine hstart.symm.le.trans ?_
          exact hsorted.start_le_latest (mem_after.1 hx).1
      · cases hlast : (r.run ops).items.getLast? with
        | none => simp [Table.refresh, latest, hlast]
        | some z =>
          refine (latest_of_getLast? hlast).le.trans ?_
          by_cases hz : (r.run ops).since < r.time z
          · have hfresh : z ∈ (r.run ops).fresh r :=
              mem_after.2 ⟨List.mem_of_getLast? hlast, hz⟩
            exact le_foldr_max (Or.inr (List.mem_map_of_mem hfresh))
          · have := start_le_time (r := r) z
            have := Table.since_le_refresh_since (r := r) (t := r.run ops)
            omega

/-! ### Timely refreshes -/

variable (r) in
/-- At every refresh, no item is on the start of the latest bucket, unless the last item
is and the bucket gets no further one. The bucket at time zero is free of this: its
start is never read. -/
def Timely (ops : List (Op α)) : Prop :=
  ∀ pre post x, ops = pre ++ .refresh :: post → (inserted pre).getLast? = some x →
    r.start x ≠ 0 →
    (r.time x = r.start x ∧ ∀ y ∈ inserted post, r.start y ≠ r.start x) ∨
      ∀ y ∈ inserted pre, r.time y ≠ r.start x

theorem timely_map_insert : r.Timely (xs.map .insert) := by
  intro pre post x hops
  have hmem : Op.refresh ∈ xs.map Op.insert := by
    rw [hops]
    simp
  simp at hmem

/-- Refreshes are timely as long as no item is on the start of a bucket. -/
theorem timely_of_off_start (h : ∀ y ∈ inserted ops, r.time y ≠ r.start y) : r.Timely ops := by
  intro pre post x hops _ _
  refine Or.inr fun y hy hyx => h y ?_ ?_
  · rw [hops, inserted_append]
    exact List.mem_append_left _ hy
  · have := r.start_le_start (x := x) (y := y) hyx.ge
    have := start_le_time (r := r) y
    omega

theorem exists_refresh (h : (r.run ops).processed ≠ []) :
    ∃ pre post, ops = pre ++ .refresh :: post ∧ inserted pre = (r.run ops).processed ∧
      inserted post = (r.run ops).pending := by
  induction ops using List.reverseRecOn with
  | nil => exact absurd rfl h
  | append_singleton ops op ih =>
    cases op with
    | insert x =>
      rw [run_append_insert] at h ⊢
      obtain ⟨pre, post, rfl, hpre, hpost⟩ := ih h
      refine ⟨pre, post ++ [.insert x], by simp, hpre, ?_⟩
      rw [inserted_append, hpost]
      rfl
    | refresh =>
      rw [run_append_refresh]
      exact ⟨ops, [], rfl, items_run.symm, rfl⟩

namespace Table

variable {t : Table α}

theorem Exact.refresh_of_full (h : t.Exact r)
    (hfull : r.bucket (t.fresh r) b = r.bucket (r.after 0 t.items) b) :
    (t.refresh r).sources b = r.bucket (r.after 0 t.items) b := by
  by_cases hnil : r.bucket (t.fresh r) b = []
  · rw [refresh_sources_of_nil hnil, h b]
    rw [hfull, items, after_append, bucket_append, List.append_eq_nil_iff] at hnil
    rw [items, after_append, bucket_append, hnil.1, hnil.2]
    rfl
  · rw [refresh_sources_of_ne_nil hnil, hfull]

/-- A bucket that is not read stays exact if nothing new fell into it. -/
theorem Exact.refresh_of_none (h : t.Exact r) (hnil : r.bucket (t.fresh r) b = [])
    (hpending : ∀ y ∈ t.pending, r.start y ≠ b) :
    (t.refresh r).sources b = r.bucket (r.after 0 t.items) b := by
  have hnew : r.bucket (r.after 0 t.pending) b = [] :=
    bucket_eq_nil.2 fun y hy => hpending y (mem_after.1 hy).1
  rw [refresh_sources_of_nil hnil, h b, items, after_append, bucket_append, hnew, List.append_nil]

theorem Exact.refresh_before (h : t.Exact r) (hsorted : r.Sorted t.items) {x : α}
    (hlast : t.processed.getLast? = some x) (hsince : t.since = r.start x) (hlt : b < t.since) :
    (t.refresh r).sources b = r.bucket (r.after 0 t.items) b := by
  have hx := start_le_time (r := r) x
  refine h.refresh_of_none (bucket_eq_nil.2 fun y hy => ?_) fun y hy => ?_
  · have := r.start_le_start (x := x) (y := y) (by have := (mem_after.1 hy).2; omega)
    omega
  · have := start_mono (r := r) (hsorted.time_last_le hlast hy)
    omega

/-- The latest bucket is over as well, or it is read in full. -/
theorem Exact.refresh_latest (h : t.Exact r) (hsorted : r.Sorted t.items) {x : α}
    (hlast : t.processed.getLast? = some x) (hsince : t.since = r.start x)
    (htimely : (r.time x = r.start x ∧ ∀ y ∈ t.pending, r.start y ≠ r.start x) ∨
      ∀ y ∈ t.processed, r.time y ≠ r.start x) :
    (t.refresh r).sources t.since = r.bucket (r.after 0 t.items) t.since := by
  have hx := start_le_time (r := r) x
  rcases htimely with ⟨hon, hnone⟩ | hoff
  · have hprocessed : r.Sorted t.processed := (List.pairwise_append.1 hsorted).1
    refine h.refresh_of_none (bucket_eq_nil.2 fun y hy hstart => ?_) fun y hy => ?_
    · obtain ⟨hy, hlt⟩ := mem_after.1 hy
      rcases List.mem_append.1 hy with hy | hy
      · have := hprocessed.time_le_last hlast hy
        omega
      · exact hnone y hy (by omega)
    · rw [hsince]
      exact hnone y hy
  · refine h.refresh_of_full ?_
    rw [fresh, after, after, bucket, bucket, List.filter_filter, List.filter_filter]
    refine List.filter_congr fun y hy => ?_
    have hle := start_le_time (r := r) y
    have hne : r.start y = t.since → r.time y ≠ t.since := by
      intro hstart
      rcases List.mem_append.1 hy with hy | hy
      · rw [hsince]
        exact hoff y hy
      · have := hsorted.time_last_le hlast hy
        have := hoff x (List.mem_of_getLast? hlast)
        omega
    by_cases hstart : r.start y = t.since
    · have := hne hstart
      simp only [hstart, decide_true, Bool.true_and, decide_eq_decide]
      omega
    · simp [hstart]

theorem Exact.refresh (h : t.Exact r) (hsorted : r.Sorted t.items)
    (hsince : t.since = r.latest t.processed)
    (htimely : ∀ x, t.processed.getLast? = some x → r.start x ≠ 0 →
      (r.time x = r.start x ∧ ∀ y ∈ t.pending, r.start y ≠ r.start x) ∨
        ∀ y ∈ t.processed, r.time y ≠ r.start x) :
    (t.refresh r).Exact r := by
  intro b
  change (t.refresh r).sources b = r.bucket (r.after 0 t.items) b
  by_cases hzero : t.since = 0
  · exact h.refresh_of_full (by rw [fresh, hzero])
  · obtain ⟨x, hlast⟩ : ∃ x, t.processed.getLast? = some x := by
      refine Option.ne_none_iff_exists'.1 fun hnone => hzero ?_
      rw [hsince, latest, hnone]
      rfl
    rw [latest_of_getLast? hlast] at hsince
    rcases lt_trichotomy b t.since with hlt | rfl | hgt
    · exact h.refresh_before hsorted hlast hsince hlt
    · exact h.refresh_latest hsorted hlast hsince (htimely x hlast (by omega))
    · refine h.refresh_of_full ?_
      rw [fresh, bucket_after_of_lt hgt, bucket_after_of_lt (Nat.zero_lt_of_lt hgt)]

end Table

theorem Table.Exact.run_refresh (h : (r.run ops).Exact r) (hsorted : r.Sorted (inserted ops))
    (htimely : r.Timely ops) : (r.run (ops ++ [.refresh])).Exact r := by
  rw [run_append_refresh]
  refine h.refresh (by rwa [items_run]) (since_run hsorted) fun x hlast hx => ?_
  have hne : (r.run ops).processed ≠ [] := by
    intro hnil
    simp [hnil] at hlast
  obtain ⟨pre, post, rfl, hpre, hpost⟩ := exists_refresh hne
  rw [← hpre] at hlast ⊢
  rw [← hpost]
  exact htimely pre post x rfl hlast hx

theorem Timely.of_append (h : r.Timely (ops ++ ops')) : r.Timely ops := by
  intro pre post x hops hlast hx
  subst hops
  refine (h pre (post ++ ops') x (by simp) hlast hx).imp (fun hon => ⟨hon.1, fun y hy => ?_⟩) id
  refine hon.2 y ?_
  rw [inserted_append]
  exact List.mem_append_left _ hy

theorem Timely.exact (htimely : r.Timely ops) (hsorted : r.Sorted (inserted ops)) :
    (r.run ops).Exact r := by
  induction ops using List.reverseRecOn with
  | nil => intro b; rfl
  | append_singleton ops op ih =>
    rw [inserted_append] at hsorted
    have hprefix : r.Sorted (inserted ops) := (List.pairwise_append.1 hsorted).1
    have hexact := ih htimely.of_append hprefix
    cases op with
    | insert x =>
      rw [run_append_insert]
      exact hexact
    | refresh => exact hexact.run_refresh hprefix htimely.of_append

theorem exact_once (hsorted : r.Sorted xs) :
    (r.run (xs.map .insert ++ [.refresh])).Exact r := by
  have hinserted : inserted (xs.map Op.insert) = xs := inserted_map_insert
  rw [← hinserted] at hsorted
  exact (timely_map_insert.exact hsorted).run_refresh hsorted timely_map_insert

/-! ### Refreshes that are not timely -/

/-- An entry that cannot be that of a bucket with more than `n` items, one of them on its
start: too few items, or none on the start. -/
def Short (time : α → ℕ) (start n : ℕ) (l : List α) : Prop :=
  l.length ≤ n ∨ ∀ y ∈ l, time y ≠ start

variable (r) in
/-- The entry of a bucket is short, or will be with the next refresh. -/
def Stale (start n : ℕ) (t : Table α) : Prop :=
  start ≤ t.since ∧ (Short r.time start n (t.sources start) ∨
    t.since = start ∧ ∃ x ∈ t.items, r.start x = start ∧ start < r.time x)

variable {n : ℕ} {t : Table α}

theorem Stale.short_refresh (h : r.Stale b n t) :
    Short r.time b n ((t.refresh r).sources b) := by
  obtain ⟨hle, h⟩ := h
  by_cases hnil : r.bucket (t.fresh r) b = []
  · rw [Table.refresh_sources_of_nil hnil]
    rcases h with h | ⟨hsince, x, hx, hstart, hlt⟩
    · exact h
    · exact absurd hstart (bucket_eq_nil.1 hnil x (mem_after.2 ⟨hx, by omega⟩))
  · rw [Table.refresh_sources_of_ne_nil hnil]
    refine Or.inr fun y hy => ?_
    have := (mem_after.1 (mem_bucket.1 hy).1).2
    omega

theorem Stale.step (h : r.Stale b n t) (op : Op α) : r.Stale b n (r.step t op) := by
  cases op with
  | insert x =>
    refine ⟨h.1, h.2.imp id fun ⟨hsince, y, hy, hstart⟩ => ⟨hsince, y, ?_, hstart⟩⟩
    rw [Table.items] at hy ⊢
    rw [Rollup.step, Table.insert, ← List.append_assoc]
    exact List.mem_append_left _ hy
  | refresh =>
    exact ⟨h.1.trans Table.since_le_refresh_since, Or.inl h.short_refresh⟩

theorem Stale.run (h : r.Stale b n (r.run ops)) (ops' : List (Op α)) :
    r.Stale b n (r.run (ops ++ ops')) := by
  induction ops' using List.reverseRecOn with
  | nil => rwa [List.append_nil]
  | append_singleton ops' op ih =>
    rw [← List.append_assoc, Rollup.run, List.foldl_append]
    exact ih.step op

/-- A stale bucket that has more items, one of them on its start, is never exact again. -/
theorem Stale.not_exact (h : r.Stale b n (r.run ops)) (hx : x ∈ inserted ops)
    (hb : b ≠ 0) (hon : r.time x = b) (hstart : r.start x = b)
    (hlong : n < (r.bucket (r.after 0 (inserted ops)) b).length) :
    ¬ (r.run (ops ++ [.refresh])).Exact r := by
  intro hexact
  have hshort := h.short_refresh
  rw [run_append_refresh] at hexact
  rw [hexact b] at hshort
  rw [Table.refresh, items_run] at hshort
  rcases hshort with hlen | hoff
  · exact absurd hlen (not_le.2 hlong)
  · exact hoff x (mem_bucket.2 ⟨mem_after.2 ⟨hx, by omega⟩, hstart⟩) hon

theorem timely_of_exact (hsorted : r.Sorted (inserted ops))
    (h : (r.run (ops ++ [.refresh])).Exact r) : r.Timely ops := by
  intro pre post x hops hlast hx
  subst hops
  have hmem := List.mem_of_getLast? hlast
  have hle := start_le_time (r := r) x
  have hsorted' : r.Sorted (inserted (pre ++ [.refresh])) := by
    rw [inserted_append] at hsorted
    rw [inserted_append, inserted_cons_refresh, inserted_nil, List.append_nil]
    exact (List.pairwise_append.1 hsorted).1
  have hitems : (r.run (pre ++ [.refresh])).processed = inserted pre :=
    processed_run_append_refresh
  have hsince : (r.run (pre ++ [.refresh])).since = r.start x := by
    rw [since_run hsorted', hitems, latest_of_getLast? hlast]
  have hassoc : pre ++ .refresh :: post = pre ++ [.refresh] ++ post := by simp
  rw [hassoc] at h
  by_cases hon : r.time x = r.start x
  · refine Or.inl ⟨hon, fun y hy hyx => ?_⟩
    have hstale : r.Stale (r.start x) (r.bucket (r.after 0 (inserted pre)) (r.start x)).length
        (r.run (pre ++ [.refresh])) := by
      refine ⟨hsince.ge, Or.inl (Or.inl ?_)⟩
      rw [← hitems]
      exact sources_run_sublist.length_le
    refine (hstale.run post).not_exact (x := x) ?_ hx hon rfl ?_ h
    · simp [hmem]
    · have hy' : y ∈ r.bucket (r.after 0 (inserted post)) (r.start x) := by
        have := start_le_time (r := r) y
        exact mem_bucket.2 ⟨mem_after.2 ⟨hy, by omega⟩, hyx⟩
      have := List.length_pos_of_mem hy'
      simpa using this
  · refine Or.inr fun y hy hyx => ?_
    have hstale : r.Stale (r.start x) 0 (r.run (pre ++ [.refresh])) := by
      refine ⟨hsince.ge, Or.inr ⟨hsince, x, ?_, rfl, by omega⟩⟩
      rw [items_run]
      simpa using hmem
    have hstart : r.start y = r.start x := by
      have := start_le_time (r := r) y
      have := r.start_le_start (x := x) (y := y) hyx.ge
      omega
    refine (hstale.run post).not_exact (x := y) ?_ hx hyx hstart ?_ h
    · simp [hy]
    · refine List.length_pos_of_mem (a := y) (mem_bucket.2 ⟨mem_after.2 ⟨?_, by omega⟩, hstart⟩)
      simp [hy]

end Rollup

end EnergyChain
