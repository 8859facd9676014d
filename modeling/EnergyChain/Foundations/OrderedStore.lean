import Mathlib.Data.List.Lex
import Mathlib.Data.List.Nodup
import Mathlib.Tactic

/-!
# Finite maps with ordered iteration

A store keeps its entries in one list, strictly increasing in the key, so two
stores with the same lookups are equal and iteration visits every key once, in
order. The strict order is a field of the structure: a store with a repeated
or misplaced key cannot be built.
-/

namespace EnergyChain

/-- A finite map whose entries are listed in strictly increasing key order. -/
structure OrderedStore (K V : Type*) [LinearOrder K] where
  entries : List (K × V)
  sorted : entries.Pairwise fun a b => a.1 < b.1

namespace OrderedStore

variable {K V : Type*} [LinearOrder K]

/-- First entry stored under the key; in a sorted list it is the only one. -/
def lookup (k : K) : List (K × V) → Option V
  | [] => none
  | (k', v) :: rest => if k = k' then some v else lookup k rest

/-- Sorted insertion, replacing the entry of an equal key. -/
def insertEntry (k : K) (v : V) : List (K × V) → List (K × V)
  | [] => [(k, v)]
  | (k', v') :: rest =>
    if k < k' then (k, v) :: (k', v') :: rest
    else if k = k' then (k, v) :: rest
    else (k', v') :: insertEntry k v rest

theorem mem_insertEntry {k : K} {v : V} {e : K × V} {l : List (K × V)} :
    e ∈ insertEntry k v l → e = (k, v) ∨ e ∈ l := by
  induction l with
  | nil => simp [insertEntry]
  | cons hd tl ih =>
    obtain ⟨k', v'⟩ := hd
    rw [insertEntry]
    split_ifs <;> grind

theorem insertEntry_sorted (k : K) (v : V) {l : List (K × V)}
    (h : l.Pairwise fun a b => a.1 < b.1) :
    (insertEntry k v l).Pairwise fun a b => a.1 < b.1 := by
  induction l with
  | nil => simp [insertEntry]
  | cons hd tl ih =>
    obtain ⟨k', v'⟩ := hd
    rw [insertEntry]
    have htl := List.pairwise_cons.mp h
    split_ifs with h1 h2
    · refine List.pairwise_cons.mpr ⟨fun e he => ?_, h⟩
      rcases List.mem_cons.mp he with rfl | he
      · exact h1
      · exact h1.trans (htl.1 e he)
    · subst h2
      exact List.pairwise_cons.mpr ⟨htl.1, htl.2⟩
    · refine List.pairwise_cons.mpr ⟨fun e he => ?_, ih htl.2⟩
      rcases mem_insertEntry he with rfl | he
      · exact lt_of_le_of_ne (not_lt.mp h1) (Ne.symm h2)
      · exact htl.1 e he

theorem lookup_insertEntry (k k' : K) (v : V) (l : List (K × V)) :
    lookup k' (insertEntry k v l) = if k' = k then some v else lookup k' l := by
  induction l with
  | nil => simp [insertEntry, lookup]
  | cons hd tl ih =>
    obtain ⟨k'', v''⟩ := hd
    rw [insertEntry]
    split_ifs with h1 h2 h3 <;> grind [lookup]

theorem mem_iff_lookup {k : K} {v : V} {l : List (K × V)}
    (h : l.Pairwise fun a b => a.1 < b.1) : (k, v) ∈ l ↔ lookup k l = some v := by
  induction l with
  | nil => simp [lookup]
  | cons hd tl ih =>
    obtain ⟨k', v'⟩ := hd
    have htl := List.pairwise_cons.mp h
    have hih := ih htl.2
    by_cases hk : k = k'
    · subst hk
      have hfresh : (k, v) ∉ tl := fun hm => lt_irrefl k (htl.1 _ hm)
      simp [lookup, hfresh, eq_comm]
    · simp [lookup, hk, hih]

theorem lookup_filter (p : K → Bool) (k : K) (l : List (K × V)) :
    lookup k (l.filter fun e => p e.1) = if p k then lookup k l else none := by
  induction l with
  | nil => simp [lookup]
  | cons hd tl ih =>
    obtain ⟨k', v'⟩ := hd
    by_cases hp : p k' <;> by_cases hk : k = k' <;> grind [lookup]

/-! ### The operations of a store -/

def empty : OrderedStore K V := ⟨[], List.Pairwise.nil⟩

def get (s : OrderedStore K V) (k : K) : Option V := lookup k s.entries

def has (s : OrderedStore K V) (k : K) : Bool := (s.get k).isSome

def set (s : OrderedStore K V) (k : K) (v : V) : OrderedStore K V :=
  ⟨insertEntry k v s.entries, insertEntry_sorted k v s.sorted⟩

/-- Keep the entries whose key satisfies the predicate. -/
def restrict (s : OrderedStore K V) (p : K → Bool) : OrderedStore K V :=
  ⟨s.entries.filter fun e => p e.1, s.sorted.filter _⟩

def delete (s : OrderedStore K V) (k : K) : OrderedStore K V :=
  s.restrict fun k' => decide (k' ≠ k)

/-- The entries with `lo ≤ key < hi`, in key order. -/
def iterator (s : OrderedStore K V) (lo hi : K) : List (K × V) :=
  (s.restrict fun k => decide (lo ≤ k ∧ k < hi)).entries

@[simp] theorem get_empty (k : K) : (empty : OrderedStore K V).get k = none := rfl

theorem get_set (s : OrderedStore K V) (k k' : K) (v : V) :
    (s.set k v).get k' = if k' = k then some v else s.get k' :=
  lookup_insertEntry k k' v s.entries

@[simp] theorem get_set_self (s : OrderedStore K V) (k : K) (v : V) :
    (s.set k v).get k = some v := by simp [get_set]

theorem get_set_of_ne (s : OrderedStore K V) {k k' : K} (h : k' ≠ k) (v : V) :
    (s.set k v).get k' = s.get k' := by simp [get_set, h]

theorem has_set {s : OrderedStore K V} {k' : K} (h : s.has k' = true) (k : K) (v : V) :
    (s.set k v).has k' = true := by
  rw [has, get_set]
  split_ifs
  · rfl
  · exact h

theorem get_restrict (s : OrderedStore K V) (p : K → Bool) (k : K) :
    (s.restrict p).get k = if p k then s.get k else none :=
  lookup_filter p k s.entries

theorem get_delete (s : OrderedStore K V) (k k' : K) :
    (s.delete k).get k' = if k' = k then none else s.get k' := by
  rw [delete, get_restrict]
  by_cases h : k' = k <;> simp [h]

theorem mem_entries (s : OrderedStore K V) {k : K} {v : V} :
    (k, v) ∈ s.entries ↔ s.get k = some v := mem_iff_lookup s.sorted

theorem mem_iterator (s : OrderedStore K V) {lo hi k : K} {v : V} :
    (k, v) ∈ s.iterator lo hi ↔ (lo ≤ k ∧ k < hi) ∧ s.get k = some v := by
  rw [iterator, mem_entries, get_restrict]
  by_cases h : lo ≤ k ∧ k < hi <;> simp [h]

theorem iterator_sorted (s : OrderedStore K V) (lo hi : K) :
    (s.iterator lo hi).Pairwise fun e e' => e.1 < e'.1 := sorted _

theorem entries_nodup (s : OrderedStore K V) : s.entries.Nodup := by
  refine s.sorted.imp ?_
  rintro a b h rfl
  exact lt_irrefl a.1 h

theorem keys_nodup (s : OrderedStore K V) : (s.entries.map Prod.fst).Nodup :=
  List.pairwise_map.mpr (s.sorted.imp fun h => ne_of_lt h)

theorem entries_congr {s s' : OrderedStore K V} (h : ∀ k, s'.get k = s.get k) :
    s'.entries = s.entries := by
  have hperm : s'.entries.Perm s.entries := by
    refine (List.perm_ext_iff_of_nodup s'.entries_nodup s.entries_nodup).mpr ?_
    rintro ⟨k, v⟩
    rw [mem_entries, mem_entries, h]
  refine List.Perm.eq_of_pairwise (fun a b _ _ hab hba => ?_) s'.sorted s.sorted hperm
  exact absurd hab (lt_asymm hba)

theorem iterator_congr {s s' : OrderedStore K V} {lo hi : K}
    (h : ∀ k, lo ≤ k → k < hi → s'.get k = s.get k) : s'.iterator lo hi = s.iterator lo hi := by
  apply entries_congr
  intro k
  rw [get_restrict, get_restrict]
  by_cases hk : lo ≤ k ∧ k < hi
  · rw [h k hk.1 hk.2]
  · simp [hk]

omit [LinearOrder K] in
/-- Results read from a list of entries are related as the keys are, when the
key can be read off the result. -/
theorem pairwise_filterMap_of_key {B : Type*} {R : K → K → Prop} {l : List (K × V)}
    (hl : l.Pairwise fun e e' => R e.1 e'.1) {f : K × V → Option B} (key : B → K)
    (h : ∀ e ∈ l, ∀ b, f e = some b → e.1 = key b) :
    (l.filterMap f).Pairwise fun b b' => R (key b) (key b') := by
  refine List.pairwise_filterMap.mpr (hl.imp_of_mem ?_)
  intro e e' he he' hr b hb b' hb'
  rw [← h e he b hb, ← h e' he' b' hb']
  exact hr

omit [LinearOrder K] in
/-- A list of keyed entries gives no result twice when the key can be read off
the result. -/
theorem nodup_filterMap_of_key {B : Type*} {l : List (K × V)} (hl : (l.map Prod.fst).Nodup)
    {f : K × V → Option B} (key : B → K) (h : ∀ e ∈ l, ∀ b, f e = some b → e.1 = key b) :
    (l.filterMap f).Nodup := by
  refine (pairwise_filterMap_of_key (R := fun a b => a ≠ b) (List.pairwise_map.mp hl) key h).imp ?_
  rintro b _ hne rfl
  exact hne rfl

theorem eq_of_nodup_filterMap {A B : Type*} {l : List A} {f : A → Option B}
    (h : (l.filterMap f).Nodup) {a a' : A} {b : B} (ha : a ∈ l) (ha' : a' ∈ l)
    (hb : f a = some b) (hb' : f a' = some b) : a = a' := by
  have honce : l.Pairwise fun x x' => ¬ (f x = some b ∧ f x' = some b) := by
    refine (List.pairwise_filterMap.mp h).imp fun hne hread => ?_
    exact hne b hread.1 b hread.2 rfl
  by_contra hne
  have hsymm : Std.Symm fun x x' => ¬ (f x = some b ∧ f x' = some b) :=
    ⟨fun _ _ hnot hread => hnot hread.symm⟩
  exact honce.forall ha ha' hne ⟨hb, hb'⟩

/-- Selecting entries and reading them is reading and then selecting, when the
two selections agree on what is read. -/
theorem filterMap_filter_of_iff {A B : Type*} {l : List A} {p : A → Bool} {q : B → Bool}
    {f : A → Option B} (h : ∀ e ∈ l, ∀ b, f e = some b → (p e = true ↔ q b = true)) :
    (l.filter p).filterMap f = (l.filterMap f).filter q := by
  induction l with
  | nil => rfl
  | cons e l ih =>
    have hl := ih fun e' he' => h e' (List.mem_cons_of_mem _ he')
    cases hread : f e with
    | none =>
      rw [List.filterMap_cons_none hread, ← hl, List.filter_cons]
      split_ifs
      · exact List.filterMap_cons_none hread
      · rfl
    | some b =>
      have hb := h e List.mem_cons_self b hread
      rw [List.filterMap_cons_some hread, List.filter_cons, List.filter_cons, ← hl]
      by_cases hp : p e = true
      · rw [if_pos hp, if_pos (hb.mp hp), List.filterMap_cons_some hread]
      · rw [if_neg hp, if_neg (mt hb.mpr hp)]

/-- And only then, even up to order, when every entry can be read. -/
theorem iff_of_filterMap_filter_perm {A B : Type*} {l : List A} {p : A → Bool} {q : B → Bool}
    {f : A → Option B} (hread : ∀ e ∈ l, ∃ b, f e = some b)
    (h : ((l.filter p).filterMap f).Perm ((l.filterMap f).filter q)) :
    ∀ e ∈ l, ∀ b, f e = some b → (p e = true ↔ q b = true) := by
  let r : A → Bool := fun e => (f e).any q
  have hr : ∀ e ∈ l, ∀ b, f e = some b → (r e = true ↔ q b = true) := by
    intro e _ b hb
    simp [r, hb]
  have hlength : ∀ m : List A, (∀ e ∈ m, ∃ b, f e = some b) → (m.filterMap f).length = m.length := by
    intro m hm
    refine List.filterMap_length_eq_length.mpr fun e he => ?_
    exact Option.isSome_iff_exists.mpr (hm e he)
  have hpr : ∀ e ∈ l, p e = true → r e = true := by
    intro e he hp
    obtain ⟨b, hb⟩ := hread e he
    have hmem : b ∈ (l.filterMap f).filter q :=
      h.subset (List.mem_filterMap.mpr ⟨e, List.mem_filter.mpr ⟨he, hp⟩, hb⟩)
    exact (hr e he b hb).mpr (List.mem_filter.mp hmem).2
  -- As many entries are selected one way as the other, so they are the same.
  have hsame : (l.filter r).filter p = l.filter r := by
    refine List.filter_sublist.eq_of_length ?_
    rw [← filterMap_filter_of_iff hr] at h
    have hcount := h.length_eq
    rw [hlength _ fun e he => hread e (List.mem_filter.mp he).1,
      hlength _ fun e he => hread e (List.mem_filter.mp he).1] at hcount
    rw [← hcount, List.filter_filter]
    refine congrArg List.length (List.filter_congr fun e he => ?_)
    by_cases hp : p e = true
    · simp [hp, hpr e he hp]
    · simp [hp]
  intro e he b hb
  constructor
  · exact fun hp => (hr e he b hb).mp (hpr e he hp)
  · intro hq
    have hmem : e ∈ l.filter r := List.mem_filter.mpr ⟨he, (hr e he b hb).mpr hq⟩
    rw [← hsame] at hmem
    exact (List.mem_filter.mp hmem).2

/-! ### Contents up to order

`s.entries.Perm l` says that `l` lists the contents of `s`; the rules below
keep such a listing through writes and read lookups and iterations off it. -/

theorem get_eq_some_iff_of_perm {s : OrderedStore K V} {l : List (K × V)}
    (h : s.entries.Perm l) {k : K} {v : V} : s.get k = some v ↔ (k, v) ∈ l := by
  rw [← mem_entries, h.mem_iff]

theorem get_eq_none_iff_of_perm {s : OrderedStore K V} {l : List (K × V)}
    (h : s.entries.Perm l) {k : K} : s.get k = none ↔ k ∉ l.map Prod.fst := by
  rw [Option.eq_none_iff_forall_ne_some]
  simp [get_eq_some_iff_of_perm h]

theorem entries_set_perm (s : OrderedStore K V) (k : K) (v : V) :
    (s.set k v).entries.Perm ((k, v) :: s.entries.filter fun e => decide (e.1 ≠ k)) := by
  have hnodup : ((k, v) :: s.entries.filter fun e => decide (e.1 ≠ k)).Nodup := by
    refine List.nodup_cons.mpr ⟨?_, s.entries_nodup.filter _⟩
    simp
  refine (List.perm_ext_iff_of_nodup (s.set k v).entries_nodup hnodup).mpr ?_
  rintro ⟨k', v'⟩
  simp only [mem_entries, get_set, List.mem_cons, Prod.mk.injEq, List.mem_filter,
    decide_eq_true_eq]
  split_ifs with hk <;> simp [hk, eq_comm]

theorem Perm.set_fresh {s : OrderedStore K V} {l : List (K × V)} (h : s.entries.Perm l)
    {k : K} (hk : k ∉ l.map Prod.fst) (v : V) : (s.set k v).entries.Perm ((k, v) :: l) := by
  refine (entries_set_perm s k v).trans (List.Perm.cons _ ((h.filter _).trans ?_))
  have hall : ∀ e ∈ l, decide (e.1 ≠ k) = true := fun e he =>
    decide_eq_true fun heq => hk (List.mem_map.mpr ⟨e, he, heq⟩)
  rw [List.filter_eq_self.mpr hall]

theorem Perm.foldl_set_fresh {s : OrderedStore K V} {l new : List (K × V)}
    (h : s.entries.Perm l) (hnodup : (new.map Prod.fst).Nodup)
    (hfresh : ∀ e ∈ new, e.1 ∉ l.map Prod.fst) :
    (new.foldl (fun s e => s.set e.1 e.2) s).entries.Perm (new ++ l) := by
  induction new generalizing s l with
  | nil => exact h
  | cons e new ih =>
    obtain ⟨hhd, htl⟩ := List.nodup_cons.mp hnodup
    have hset := Perm.set_fresh h (hfresh e List.mem_cons_self) e.2
    refine (ih hset htl fun e' he' => ?_).trans List.perm_middle
    rw [List.map_cons, List.mem_cons, not_or]
    exact ⟨fun heq => hhd (List.mem_map.mpr ⟨e', he', heq⟩),
      hfresh e' (List.mem_cons_of_mem _ he')⟩

theorem Perm.set_replace {s : OrderedStore K V} {l : List (K × V)} {k : K} {v₀ : V}
    (h : s.entries.Perm ((k, v₀) :: l)) (v : V) : (s.set k v).entries.Perm ((k, v) :: l) := by
  have hkeys := (h.map Prod.fst).nodup_iff.mp s.keys_nodup
  have hk : k ∉ l.map Prod.fst := (List.nodup_cons.mp hkeys).1
  refine (entries_set_perm s k v).trans (List.Perm.cons _ ((h.filter _).trans ?_))
  have hall : ∀ e ∈ l, decide (e.1 ≠ k) = true := fun e he =>
    decide_eq_true fun heq => hk (List.mem_map.mpr ⟨e, he, heq⟩)
  simp only [ne_eq, not_true_eq_false, decide_false, Bool.false_eq_true, not_false_eq_true,
    List.filter_cons_of_neg]
  rw [List.filter_eq_self.mpr hall]

/-! ### Writing a list of entries

A table is rebuilt by writing entries onto another store. What the result has
under a key depends on the entries of that key only; where they all have the
value of a given store, so does the result. -/

theorem ext_get {s s' : OrderedStore K V} (h : ∀ k, s'.get k = s.get k) : s' = s := by
  obtain ⟨entries, sorted⟩ := s
  obtain ⟨entries', sorted'⟩ := s'
  have heq : entries' = entries := entries_congr h
  subst heq
  rfl

def setAll (s : OrderedStore K V) (l : List (K × V)) : OrderedStore K V :=
  l.foldl (fun s e => s.set e.1 e.2) s

@[simp] theorem setAll_nil (s : OrderedStore K V) : s.setAll [] = s := rfl

@[simp] theorem setAll_cons (s : OrderedStore K V) (e : K × V) (l : List (K × V)) :
    s.setAll (e :: l) = (s.set e.1 e.2).setAll l := rfl

theorem setAll_append (s : OrderedStore K V) (l l' : List (K × V)) :
    s.setAll (l ++ l') = (s.setAll l).setAll l' := List.foldl_append

theorem foldl_setAll {B : Type*} (writes : B → List (K × V)) (bs : List B)
    (s : OrderedStore K V) :
    bs.foldl (fun s b => s.setAll (writes b)) s = s.setAll (bs.flatMap writes) := by
  induction bs generalizing s with
  | nil => rfl
  | cons b bs ih => rw [List.foldl_cons, List.flatMap_cons, setAll_append, ih]

theorem get_setAll_of_notMem {l : List (K × V)} {k : K} (hk : k ∉ l.map Prod.fst)
    (s : OrderedStore K V) : (s.setAll l).get k = s.get k := by
  induction l generalizing s with
  | nil => rfl
  | cons e l ih =>
    rw [List.map_cons, List.mem_cons, not_or] at hk
    rw [setAll_cons, ih hk.2, get_set_of_ne _ hk.1]

theorem get_setAll_of_mem {l : List (K × V)} {k : K} {v : V} (hk : k ∈ l.map Prod.fst)
    (hv : ∀ e ∈ l, e.1 = k → e.2 = v) (s : OrderedStore K V) : (s.setAll l).get k = some v := by
  induction l generalizing s with
  | nil => simp at hk
  | cons e l ih =>
    rw [setAll_cons]
    by_cases hl : k ∈ l.map Prod.fst
    · exact ih hl (fun e' he' => hv e' (List.mem_cons_of_mem _ he')) _
    · have he : k = e.1 := by simpa [hl] using hk
      rw [get_setAll_of_notMem hl, he, get_set_self, hv e List.mem_cons_self he.symm]

theorem get_setAll_congr {s s' : OrderedStore K V} {k : K} (h : s'.get k = s.get k)
    (l : List (K × V)) : (s'.setAll l).get k = (s.setAll l).get k := by
  induction l generalizing s s' with
  | nil => exact h
  | cons e l ih =>
    refine ih ?_
    rw [get_set, get_set, h]

/-- Writing entries that a store has, all of those under a key among them,
gives the key what that store has. -/
theorem get_setAll_of_agree {base s : OrderedStore K V} {l : List (K × V)} {k : K}
    (hwritten : ∀ e ∈ l, e.1 = k → s.get k = some e.2)
    (hall : ∀ v, s.get k = some v → (k, v) ∈ l ∨ base.get k = some v)
    (hbase : s.get k = none → base.get k = none) : (base.setAll l).get k = s.get k := by
  by_cases hk : k ∈ l.map Prod.fst
  · obtain ⟨e, he, rfl⟩ := List.mem_map.mp hk
    have hs := hwritten e he rfl
    rw [hs]
    refine get_setAll_of_mem hk (fun e' he' hkey => ?_) base
    exact Option.some.inj ((hwritten e' he' hkey).symm.trans hs)
  · rw [get_setAll_of_notMem hk]
    cases hs : s.get k with
    | none => exact hbase hs
    | some v =>
      rcases hall v hs with hmem | hget
      · exact absurd (List.mem_map.mpr ⟨_, hmem, rfl⟩) hk
      · exact hget

end OrderedStore

/-! ### Lists in the order of a key -/

section SortBy

variable {B κ : Type*} [LinearOrder κ] {key : B → κ} {l : List B}

/-- The list in the order of a key. -/
def sortBy (key : B → κ) (l : List B) : List B :=
  l.mergeSort fun b b' => decide (key b ≤ key b')

theorem sortBy_perm : (sortBy key l).Perm l := List.mergeSort_perm _ _

theorem sortBy_sorted (hnodup : (l.map key).Nodup) :
    (sortBy key l).Pairwise fun b b' => key b < key b' := by
  have hle : (sortBy key l).Pairwise fun b b' => key b ≤ key b' := by
    refine (List.pairwise_mergeSort ?_ ?_ l).imp of_decide_eq_true
    · intro a b c hab hbc
      simp only [decide_eq_true_eq] at hab hbc ⊢
      exact hab.trans hbc
    · intro a b
      simpa using le_total (key a) (key b)
  have hne : (sortBy key l).Pairwise fun b b' => key b ≠ key b' :=
    List.pairwise_map.mp ((sortBy_perm.map key).nodup_iff.mpr hnodup)
  exact (hle.and hne).imp fun h => lt_of_le_of_ne h.1 h.2

theorem sortBy_of_sorted (h : l.Pairwise fun b b' => key b < key b') : sortBy key l = l :=
  List.mergeSort_of_pairwise (h.imp fun hlt => decide_eq_true hlt.le)

end SortBy

/-! ### Stores over strings of ordered symbols -/

namespace OrderedStore

variable {A V : Type*} [LinearOrder A]

/-- The entries whose key starts with the prefix, in key order. -/
def prefixIterator (s : OrderedStore (List A) V) (pre : List A) : List (List A × V) :=
  (s.restrict fun k => pre.isPrefixOf k).entries

theorem mem_prefixIterator (s : OrderedStore (List A) V) {pre k : List A} {v : V} :
    (k, v) ∈ s.prefixIterator pre ↔ pre <+: k ∧ s.get k = some v := by
  rw [prefixIterator, mem_entries, get_restrict]
  by_cases h : pre <+: k <;> simp [h]

theorem prefixIterator_sorted (s : OrderedStore (List A) V) (pre : List A) :
    (s.prefixIterator pre).Pairwise fun e e' => e.1 < e'.1 := sorted _

theorem prefixIterator_keys_nodup (s : OrderedStore (List A) V) (pre : List A) :
    ((s.prefixIterator pre).map Prod.fst).Nodup := keys_nodup _

theorem prefixIterator_congr {s s' : OrderedStore (List A) V} {pre : List A}
    (h : ∀ k, pre <+: k → s'.get k = s.get k) :
    s'.prefixIterator pre = s.prefixIterator pre := by
  apply entries_congr
  intro k
  rw [get_restrict, get_restrict]
  by_cases hk : pre <+: k
  · rw [h k hk]
  · simp [hk]

theorem prefixIterator_perm {s : OrderedStore (List A) V} {l : List (List A × V)}
    (h : s.entries.Perm l) (pre : List A) :
    (s.prefixIterator pre).Perm (l.filter fun e => pre.isPrefixOf e.1) :=
  h.filter _

theorem prefixIterator_eq {s : OrderedStore (List A) V} {pre : List A} {l : List (List A × V)}
    (hsorted : l.Pairwise fun e e' => e.1 < e'.1)
    (hmem : ∀ k v, (k, v) ∈ l ↔ pre <+: k ∧ s.get k = some v) : s.prefixIterator pre = l := by
  have hperm : (s.prefixIterator pre).Perm l := by
    refine (List.perm_ext_iff_of_nodup (s.restrict _).entries_nodup ?_).mpr ?_
    · refine hsorted.imp ?_
      rintro e _ hlt rfl
      exact lt_irrefl _ hlt
    · rintro ⟨k, v⟩
      rw [hmem]
      exact s.mem_prefixIterator
  refine List.Perm.eq_of_pairwise (fun a b _ _ hab hba => ?_) (s.prefixIterator_sorted pre)
    hsorted hperm
  exact absurd hab (lt_asymm hba)

/-- Records are written under a key of their own and in indexes elsewhere. The
iteration over the prefix of their keys visits them in the order of the keys. -/
theorem prefixIterator_setAll {B : Type*} {base : OrderedStore (List A) V} {pre : List A}
    {key : B → List A} {val : B → V} {index : B → List (List A × V)} {bs bs' : List B}
    (hperm : bs'.Perm bs) (hsorted : bs'.Pairwise fun b b' => key b < key b')
    (hbase : ∀ k, pre <+: k → base.get k = none) (hpre : ∀ b ∈ bs, pre <+: key b)
    (hindex : ∀ b ∈ bs, ∀ e ∈ index b, ¬ pre <+: e.1) :
    (base.setAll (bs.flatMap fun b => (key b, val b) :: index b)).prefixIterator pre =
      bs'.map fun b => (key b, val b) := by
  have hnodup : (bs.map key).Nodup := by
    refine (hperm.map key).nodup_iff.mp ?_
    exact List.pairwise_map.mpr (hsorted.imp fun h => ne_of_lt h)
  -- Under the prefix the records' own keys are all that is written.
  have hown : ∀ e ∈ bs.flatMap fun b => (key b, val b) :: index b, pre <+: e.1 →
      ∃ b ∈ bs, e = (key b, val b) := by
    intro e he hk
    obtain ⟨b, hb, he⟩ := List.mem_flatMap.mp he
    rcases List.mem_cons.mp he with rfl | he
    · exact ⟨b, hb, rfl⟩
    · exact absurd hk (hindex b hb e he)
  have hget : ∀ b ∈ bs, (base.setAll (bs.flatMap fun b => (key b, val b) :: index b)).get (key b) =
      some (val b) := by
    intro b hb
    have hwritten : key b ∈ (bs.flatMap fun b => (key b, val b) :: index b).map Prod.fst :=
      List.mem_map.mpr ⟨(key b, val b), List.mem_flatMap.mpr ⟨b, hb, List.mem_cons_self⟩, rfl⟩
    refine get_setAll_of_mem hwritten (fun e he hkey => ?_) base
    obtain ⟨b', hb', rfl⟩ := hown e he (hkey ▸ hpre b hb)
    rw [List.inj_on_of_nodup_map hnodup hb' hb hkey]
  refine prefixIterator_eq (List.pairwise_map.mpr hsorted) fun k v => ?_
  simp only [List.mem_map, Prod.mk.injEq, hperm.mem_iff]
  constructor
  · rintro ⟨b, hb, rfl, rfl⟩
    exact ⟨hpre b hb, hget b hb⟩
  · rintro ⟨hk, hv⟩
    by_cases hwritten : k ∈ (bs.flatMap fun b => (key b, val b) :: index b).map Prod.fst
    · obtain ⟨e, he, rfl⟩ := List.mem_map.mp hwritten
      obtain ⟨b, hb, rfl⟩ := hown e he hk
      exact ⟨b, hb, rfl, Option.some.inj ((hget b hb).symm.trans hv)⟩
    · rw [get_setAll_of_notMem hwritten, hbase k hk] at hv
      cases hv

end OrderedStore
end EnergyChain
