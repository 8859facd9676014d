import EnergyChain.Indexer.ChainLogs
import EnergyChain.Indexer.EventIndexer

/-!
# A pass over a range of blocks

What `processBlockRange` changes: a pass that returns has created one row for
every event of the tracked pairs in its range and tracks the pairs created in
it; a pass that is cut short has created some of these rows at most once.
-/

namespace EnergyChain.Indexer

/-! ### What a pass leaves alone -/

/-- Between `c₀` and `c` pairs and rows were only added, and neither cursor moved. -/
structure Frame (c₀ c : Memory × Backend) : Prop where
  nodup : c.1.trackedPairs.Nodup
  stored : c.1.trackedPairs ⊆ c.2.db.pairAddresses
  tracked : c₀.1.trackedPairs ⊆ c.1.trackedPairs
  pairs : c₀.2.db.pairAddresses ⊆ c.2.db.pairAddresses
  rows : c₀.2.db.recorded ≤ c.2.db.recorded
  lastBlock : c.2.db.lastBlock = c₀.2.db.lastBlock
  lastProcessed : c.1.lastProcessed = c₀.1.lastProcessed
  head : c₀.2.head ≤ c.2.head

/-- The tracked pairs are a set of pairs in the database. -/
def Coherent (c : Memory × Backend) : Prop :=
  c.1.trackedPairs.Nodup ∧ c.1.trackedPairs ⊆ c.2.db.pairAddresses

theorem Frame.coherent {c₀ c : Memory × Backend} (h : Frame c₀ c) : Coherent c :=
  ⟨h.nodup, h.stored⟩

theorem Coherent.frame {c : Memory × Backend} (h : Coherent c) : Frame c c where
  nodup := h.1
  stored := h.2
  tracked := List.Subset.refl _
  pairs := List.Subset.refl _
  rows := le_rfl
  lastBlock := rfl
  lastProcessed := rfl
  head := le_refl _

theorem Frame.trans {c₀ c₁ c : Memory × Backend} (h : Frame c₀ c₁) (h' : Frame c₁ c) :
    Frame c₀ c where
  nodup := h'.nodup
  stored := h'.stored
  tracked := List.Subset.trans h.tracked h'.tracked
  pairs := List.Subset.trans h.pairs h'.pairs
  rows := h.rows.trans h'.rows
  lastBlock := h'.lastBlock.trans h.lastBlock
  lastProcessed := h'.lastProcessed.trans h.lastProcessed
  head := h.head.trans h'.head

/-- The frame, with the rows that are there. -/
def Mid (c₀ : Memory × Backend) (rows : Multiset LogRef) (c : Memory × Backend) : Prop :=
  Frame c₀ c ∧ c.2.db.recorded = rows

/-- The frame, with rows up to a bound. -/
def Bounded (c₀ : Memory × Backend) (rows : Multiset LogRef) (c : Memory × Backend) : Prop :=
  Frame c₀ c ∧ c.2.db.recorded ≤ rows

theorem Mid.bounded {c₀ c : Memory × Backend} {rows rows' : Multiset LogRef}
    (h : Mid c₀ rows c) (hle : rows ≤ rows') : Bounded c₀ rows' c := ⟨h.1, h.2.trans_le hle⟩

section

variable {factory : Address} {chain : Chain factory} {contracts : Address → TokenContract}

theorem guardInsert_state (s : Backend) (isNew hasReferences : Bool) (db : Database) :
    (guardInsert s isNew hasReferences db).2 = s ∨
    (guardInsert s isNew hasReferences db).2 = { s with db } := by
  unfold guardInsert
  split_ifs
  · exact .inl rfl
  · exact .inl rfl
  · exact .inr rfl

theorem map_address_setReserves (pairs : List Pair) (address : Address)
    (reserve0 reserve1 : String) :
    (pairs.map fun p => if p.address = address then { p with reserve0, reserve1 } else p).map
      Pair.address = pairs.map Pair.address := by
  rw [List.map_map]
  refine List.map_congr_left fun p _ => ?_
  rw [Function.comp_apply]
  split_ifs <;> rfl

/-- What a request changes: one moves the stored cursor, one inserts a row, and the
others change tokens and pairs at most, of which none is removed. -/
theorem serve_cases (chain : Chain factory) (contracts : Address → TokenContract) (q : Request)
    (s : Backend) :
    (∃ n, q = .indexerStateUpsert n ∧
      (serve chain contracts q s).2 = { s with db := { s.db with lastBlock := some n } }) ∨
    (∃ row, q = .create row ∧ ((serve chain contracts q s).2 = s ∨
      (serve chain contracts q s).2 = { s with db := row.insert s.db })) ∨
    ∃ tokens pairs, (serve chain contracts q s).2 = { s with db := { s.db with tokens, pairs } } ∧
      s.db.pairAddresses ⊆ pairs.map Pair.address := by
  have hsame : ∃ tokens pairs, s = { s with db := { s.db with tokens, pairs } } ∧
      s.db.pairAddresses ⊆ pairs.map Pair.address :=
    ⟨s.db.tokens, s.db.pairs, rfl, List.Subset.refl _⟩
  cases q with
  | indexerStateUpsert n => exact .inl ⟨n, rfl, rfl⟩
  | create row => exact .inr (.inl ⟨row, rfl, guardInsert_state ..⟩)
  | tokenCreate data =>
    refine .inr (.inr ?_)
    simp only [serve]
    obtain h | h := guardInsert_state s (!(s.db.tokens.map Token.address).contains data.address)
      true { s.db with tokens := s.db.tokens ++ [data] }
    · rw [h]
      exact hsame
    · exact ⟨_, _, h, List.Subset.refl _⟩
  | pairUpsert data =>
    refine .inr (.inr ?_)
    simp only [serve]
    split_ifs
    · exact hsame
    · obtain h | h := guardInsert_state s true
        ((s.db.tokens.map Token.address).contains data.token0Addr &&
          (s.db.tokens.map Token.address).contains data.token1Addr)
        { s.db with pairs := s.db.pairs ++ [data] }
      · rw [h]
        exact hsame
      · exact ⟨_, _, h, by simp [Database.pairAddresses]⟩
  | pairUpdate address reserve0 reserve1 =>
    refine .inr (.inr ?_)
    simp only [serve]
    split_ifs
    · refine ⟨_, _, rfl, ?_⟩
      rw [map_address_setReserves]
      exact List.Subset.refl _
    · exact hsame
  | _ => exact .inr (.inr hsame)

theorem serve_pairs (q : Request) (s : Backend) :
    s.db.pairAddresses ⊆ (serve chain contracts q s).2.db.pairAddresses := by
  obtain ⟨n, -, h⟩ | ⟨row, -, h | h⟩ | ⟨tokens, pairs, h, hpairs⟩ :=
    serve_cases chain contracts q s
  · rw [h]
    exact List.Subset.refl _
  · rw [h]
    exact List.Subset.refl _
  · rw [h]
    simp [Database.pairAddresses]
  · rw [h]
    exact hpairs

theorem serve_head (q : Request) (s : Backend) :
    (serve chain contracts q s).2.head = s.head := by
  obtain ⟨n, -, h⟩ | ⟨row, -, h | h⟩ | ⟨tokens, pairs, h, -⟩ :=
    serve_cases chain contracts q s <;> rw [h]

theorem serve_lastBlock {q : Request} (hq : ∀ n, q ≠ .indexerStateUpsert n) (s : Backend) :
    (serve chain contracts q s).2.db.lastBlock = s.db.lastBlock := by
  obtain ⟨n, hn, -⟩ | ⟨row, -, h | h⟩ | ⟨tokens, pairs, h, -⟩ :=
    serve_cases chain contracts q s
  · exact absurd hn (hq n)
  · rw [h]
  · rw [h]
    exact row.insert_lastBlock s.db
  · rw [h]

theorem serve_recorded {q : Request} (hq : ∀ row, q ≠ .create row) (s : Backend) :
    (serve chain contracts q s).2.db.recorded = s.db.recorded := by
  obtain ⟨n, -, h⟩ | ⟨row, hrow, -⟩ | ⟨tokens, pairs, h, -⟩ :=
    serve_cases chain contracts q s
  · rw [h]
    rfl
  · exact absurd hrow (hq row)
  · rw [h]
    rfl

theorem serve_recorded_le (q : Request) (s : Backend) :
    s.db.recorded ≤ (serve chain contracts q s).2.db.recorded := by
  obtain ⟨n, -, h⟩ | ⟨row, -, h | h⟩ | ⟨tokens, pairs, h, -⟩ := serve_cases chain contracts q s
  · rw [h]
    exact le_rfl
  · rw [h]
  · rw [h, Row.recorded_insert]
    exact Multiset.le_add_right _ _
  · rw [h]
    exact le_rfl

variable {Faulty : Prop} {A : Request → Memory → Backend → Prop} {c₀ : Memory × Backend}
  {rows : Multiset LogRef}

theorem Frame.drift {m : Memory} {s s₁ : Backend} (h : Frame c₀ (m, s))
    (hd : (servers chain contracts Faulty).drift s s₁) : Frame c₀ (m, s₁) := by
  obtain ⟨hdb, hhead⟩ := hd
  exact h.trans
    { nodup := h.nodup
      stored := hdb ▸ h.stored
      tracked := List.Subset.refl _
      pairs := hdb ▸ List.Subset.refl _
      rows := by rw [hdb]
      lastBlock := by rw [hdb]
      lastProcessed := rfl
      head := hhead }

theorem Frame.served {m : Memory} {s : Backend} (h : Frame c₀ (m, s)) {q : Request}
    (hq : ∀ n, q ≠ .indexerStateUpsert n) :
    Frame c₀ (m, (serve chain contracts q s).2) :=
  h.trans
    { nodup := h.nodup
      stored := List.Subset.trans h.stored (serve_pairs q s)
      tracked := List.Subset.refl _
      pairs := serve_pairs q s
      rows := serve_recorded_le q s
      lastBlock := serve_lastBlock hq s
      lastProcessed := rfl
      head := (serve_head q s).ge }

/-- A request other than the two that write what is counted. -/
def Request.quiet : Request → Bool
  | .indexerStateUpsert _ => false
  | .create _ => false
  | _ => true

theorem Mid.drift {m : Memory} {s s₁ : Backend} (h : Mid c₀ rows (m, s))
    (hd : (servers chain contracts Faulty).drift s s₁) : Mid c₀ rows (m, s₁) :=
  ⟨h.1.drift hd, (congrArg Database.recorded hd.1).trans h.2⟩

theorem Mid.served {m : Memory} {s : Backend} (h : Mid c₀ rows (m, s)) {q : Request}
    (hq : q.quiet = true) : Mid c₀ rows (m, (serve chain contracts q s).2) := by
  have hupsert : ∀ n, q ≠ .indexerStateUpsert n := by
    rintro n rfl
    cases hq
  have hcreate : ∀ row, q ≠ .create row := by
    rintro row rfl
    cases hq
  exact ⟨h.1.served hupsert, (serve_recorded hcreate s).trans h.2⟩

/-- A quiet request keeps the rows, and what it is answered can be read off the server. -/
theorem holds_quiet {q : Request} (hq : q.quiet = true) :
    Holds (servers chain contracts Faulty) A (Mid c₀ rows) (Async.call q)
      (fun b c => Mid c₀ rows c ∧ ∃ s₁, c₀.2.head ≤ s₁.head ∧ c.2 = (serve chain contracts q s₁).2 ∧
        (serve chain contracts q s₁).1 = .ok b) (Mid c₀ rows) := by
  apply Holds.call
  · exact fun c hc => hc
  · intro m s s₁ hc hd hA
    have hmid : Mid c₀ rows (m, (serve chain contracts q s₁).2) := (hc.drift hd).served hq
    simp only [servers]
    cases hres : (serve chain contracts q s₁).1 with
    | ok b => exact ⟨hmid, s₁, (hc.drift hd).1.head, rfl, hres⟩
    | error e => exact hmid
  · intro hS m s s₁ hc hd hA
    exact ⟨hc.drift hd, (hc.drift hd).served hq⟩

theorem holds_quiet' {q : Request} (hq : q.quiet = true) :
    Holds (servers chain contracts Faulty) A (Mid c₀ rows) (Async.call q)
      (fun _ => Mid c₀ rows) (Mid c₀ rows) :=
  (holds_quiet hq).mono (fun _ hc => hc) (fun _ _ hc => hc.1) fun _ hc => hc

theorem holds_queryFilter {address : Address} {kind : EventKind} {lo hi : ℕ}
    (hhi : hi ≤ c₀.2.head) :
    Holds (servers chain contracts Faulty) A (Mid c₀ rows) (queryFilter address kind lo hi)
      (fun logs c => Mid c₀ rows c ∧ logs = chain.queryFilter address kind lo hi)
      (Mid c₀ rows) := by
  refine (holds_quiet rfl).mono (fun _ hc => hc) ?_ fun _ hc => hc
  intro logs c hc
  obtain ⟨hmid, s₁, hhead, -, hlogs⟩ := hc
  refine ⟨hmid, ?_⟩
  simp only [serve, Except.ok.injEq] at hlogs
  rw [← hlogs, min_eq_left (hhi.trans hhead)]

/-- Either the row was inserted and counts once, or nothing happened. -/
theorem Mid.created (chain : Chain factory) (contracts : Address → TokenContract) {m : Memory}
    {s : Backend} (h : Mid c₀ rows (m, s)) (row : Row) :
    ((serve chain contracts (.create row) s).1 = .ok () ∧
      Mid c₀ (rows + {row.log}) (m, (serve chain contracts (.create row) s).2)) ∨
    ((∃ e, (serve chain contracts (.create row) s).1 = .error e) ∧
      Mid c₀ rows (m, (serve chain contracts (.create row) s).2)) := by
  have hframe : Frame c₀ (m, (serve chain contracts (.create row) s).2) := h.1.served nofun
  have hrows : s.db.recorded = rows := h.2
  by_cases hpair : row.pairAddr ∈ s.db.pairAddresses
  · have hserve : serve chain contracts (.create row) s =
        (.ok (), { s with db := row.insert s.db }) := by
      simp [serve, guardInsert, hpair]
    rw [hserve] at hframe ⊢
    exact .inl ⟨rfl, hframe, by rw [Row.recorded_insert, hrows]⟩
  · have hserve : serve chain contracts (.create row) s = (.error .foreignKeyConstraint, s) := by
      simp [serve, guardInsert, hpair]
    rw [hserve] at hframe ⊢
    exact .inr ⟨⟨_, rfl⟩, hframe, hrows⟩

/-- A row that is created counts once; if the await fails it may be there or not. -/
theorem holds_create {row : Row} :
    Holds (servers chain contracts Faulty) A (Mid c₀ rows) (create row)
      (fun _ => Mid c₀ (rows + {row.log})) (Bounded c₀ (rows + {row.log})) := by
  have hle : rows ≤ rows + {row.log} := Multiset.le_add_right _ _
  apply Holds.call
  · exact fun c hc => hc.bounded hle
  · intro m s s₁ hc hd hA
    simp only [servers]
    obtain ⟨hok, hmid⟩ | ⟨⟨e, herr⟩, hmid⟩ := (hc.drift hd).created chain contracts row
    · rw [hok]
      exact hmid
    · rw [herr]
      exact hmid.bounded hle
  · intro hS m s s₁ hc hd hA
    refine ⟨(hc.drift hd).bounded hle, ?_⟩
    obtain ⟨-, hmid⟩ | ⟨-, hmid⟩ := (hc.drift hd).created chain contracts row
    · exact hmid.bounded le_rfl
    · exact hmid.bounded hle

/-! ### New pairs -/

theorem holds_ensureToken {address : Address} :
    Holds (servers chain contracts Faulty) A (Mid c₀ rows) (ensureToken address)
      (fun _ => Mid c₀ rows) (Mid c₀ rows) := by
  have hcaught : ∀ {α : Type} {p : Program α} {a : α},
      Holds (servers chain contracts Faulty) A (Mid c₀ rows) p (fun _ => Mid c₀ rows)
        (Mid c₀ rows) →
      Holds (servers chain contracts Faulty) A (Mid c₀ rows)
        (MonadExcept.tryCatch p fun _ => pure a) (fun _ => Mid c₀ rows) (Mid c₀ rows) :=
    fun hp => hp.tryCatch (fun _ => Holds.pure fun _ hc => hc) fun _ hc => hc
  unfold ensureToken
  refine (holds_quiet' rfl).bind fun existing => ?_
  split_ifs
  · exact Holds.pure fun _ hc => hc
  · refine Holds.tryCatch (X := Mid c₀ rows) ?_ (fun _ => holds_quiet' rfl) fun _ hc => hc
    refine (hcaught (holds_quiet' rfl)).bind fun name => ?_
    refine (hcaught (holds_quiet' rfl)).bind fun symbol => ?_
    refine (hcaught (holds_quiet' rfl)).bind fun decimals => ?_
    exact holds_quiet' rfl

theorem mem_addPair {tracked : List Address} {pair p : Address} :
    p ∈ addPair tracked pair ↔ p ∈ tracked ∨ p = pair := by
  unfold addPair
  split_ifs with h
  · exact ⟨.inl, fun hp => hp.elim id fun he => he ▸ h⟩
  · simp

theorem nodup_addPair {tracked : List Address} (h : tracked.Nodup) (pair : Address) :
    (addPair tracked pair).Nodup := by
  unfold addPair
  split_ifs with hp
  · exact h
  · exact List.nodup_append.mpr ⟨h, List.nodup_singleton _, by
      rintro a ha b hb rfl
      exact hp (List.mem_singleton.mp hb ▸ ha)⟩

theorem holds_handlePairCreated {token0 token1 pairAddr : Address} {blockNumber : ℕ} :
    Holds (servers chain contracts Faulty) A (Mid c₀ rows)
      (handlePairCreated token0 token1 pairAddr blockNumber)
      (fun _ c => Mid c₀ rows c ∧ pairAddr ∈ c.1.trackedPairs) (Mid c₀ rows) := by
  unfold handlePairCreated
  refine Holds.get.bind fun memory => ?_
  split_ifs with htracked
  · exact Holds.pure fun c hc => ⟨hc.1, hc.2 ▸ htracked⟩
  · refine Holds.bind (Q := fun _ => Mid c₀ rows)
      (holds_ensureToken.mono (fun _ hc => hc.1) (fun _ _ hc => hc) fun _ hc => hc) fun _ => ?_
    refine holds_ensureToken.bind fun _ => ?_
    refine Holds.bind (Q := fun _ c => Mid c₀ rows c ∧ pairAddr ∈ c.2.db.pairAddresses)
      ((holds_quiet rfl).mono (fun _ hc => hc) ?_ fun _ hc => hc) fun _ => ?_
    · intro _ c hc
      obtain ⟨hmid, s₁, -, hs, hok⟩ := hc
      refine ⟨hmid, ?_⟩
      rw [hs]
      revert hok
      simp only [serve, guardInsert]
      split_ifs with hmem
      · exact fun _ => hmem
      · exact nofun
      · exact nofun
      · exact fun _ => by simp [Database.pairAddresses]
    · refine Holds.modify fun c hc => ⟨⟨?_, hc.1.2⟩, mem_addPair.mpr (.inr rfl)⟩
      obtain ⟨⟨hframe, -⟩, hpair⟩ := hc
      exact
        { hframe with
          nodup := nodup_addPair hframe.nodup pairAddr
          stored := fun p hp => (mem_addPair.mp hp).elim (fun hp => hframe.stored hp)
            fun he => he ▸ hpair
          tracked := fun p hp => mem_addPair.mpr (.inl (hframe.tracked hp)) }

/-! ### The rows of a pair -/

/-- The row function keeps the position of every log of the list. -/
def Parses (row : EventLog → Option (ℕ → Row)) (logs : List EventLog) : Prop :=
  ∀ log ∈ logs, ∃ parsed, row log = some parsed ∧ ∀ t, (parsed t).log = log.ref

theorem holds_createRows {row : EventLog → Option (ℕ → Row)} {logs : List EventLog}
    (hparses : Parses row logs) :
    Holds (servers chain contracts Faulty) A (Mid c₀ rows) (createRows row logs)
      (fun _ => Mid c₀ (rows + refs logs)) (Bounded c₀ (rows + refs logs)) := by
  -- what is left of the loop, with the rows that are there already, is the whole
  let I : List EventLog → Memory × Backend → Prop := fun rest c =>
    ∃ done, Mid c₀ done c ∧ done + refs rest = rows + refs logs ∧ rest ⊆ logs
  have hloop : Holds (servers chain contracts Faulty) A (I logs) (createRows row logs)
      (fun _ => I []) (Bounded c₀ (rows + refs logs)) := by
    apply Holds.forEach
    intro log rest c o c' hc hrun
    obtain ⟨done, hmid, hsum, hsub⟩ := hc
    obtain ⟨parsed, hrow, hlog⟩ := hparses log (hsub (List.mem_cons_self ..))
    simp only [hrow] at hrun
    rw [refs_cons, ← add_assoc] at hsum
    have hbound : done + {log.ref} ≤ rows + refs logs :=
      (Multiset.le_add_right _ _).trans_eq hsum
    have hbody : Holds (servers chain contracts Faulty) A (Mid c₀ done)
        (do
          let timestamp ← getBlock log.ref.blockNumber
          create (parsed (timestamp.getD 0 * 1000)))
        (fun _ => Mid c₀ (done + {log.ref})) (Bounded c₀ (rows + refs logs)) := by
      refine Holds.bind (Q := fun _ => Mid c₀ done) ?_ fun timestamp => ?_
      · exact (holds_quiet' rfl).mono (fun _ hc => hc) (fun _ _ hc => hc) fun _ hc =>
          hc.bounded ((Multiset.le_add_right _ _).trans hbound)
      · have hcreate : Holds (servers chain contracts Faulty) A (Mid c₀ done)
          (create (parsed (timestamp.getD 0 * 1000))) _ _ := holds_create
        rw [hlog] at hcreate
        exact hcreate.mono (fun _ hc => hc) (fun _ _ hc => hc) fun _ hc =>
          ⟨hc.1, hc.2.trans hbound⟩
    have hpost := hbody c o c' hmid hrun
    cases o with
    | returned a =>
      exact ⟨_, hpost, hsum, fun x hx => hsub (List.mem_cons_of_mem _ hx)⟩
    | threw e => exact hpost
    | killed => exact hpost
  refine hloop.mono (fun c hc => ⟨rows, hc, rfl, List.Subset.refl _⟩) ?_ fun _ hc => hc
  intro _ c hc
  obtain ⟨done, hmid, hsum, -⟩ := hc
  rw [refs_nil, add_zero] at hsum
  exact hsum ▸ hmid

theorem parses_swapRow {pairAddr : Address} {lo hi : ℕ} :
    Parses (swapRow pairAddr) (chain.queryFilter pairAddr .swap lo hi) := by
  intro log hlog
  have hkind := (mem_queryFilter.mp hlog).2.2
  cases hevent : log.event with
  | swap => exact ⟨_, by simp only [swapRow, hevent]; rfl, fun t => rfl⟩
  | _ => simp [hevent, Event.kind] at hkind

theorem parses_mintRow {pairAddr : Address} {lo hi : ℕ} :
    Parses (mintRow pairAddr) (chain.queryFilter pairAddr .mint lo hi) := by
  intro log hlog
  have hkind := (mem_queryFilter.mp hlog).2.2
  cases hevent : log.event with
  | mint => exact ⟨_, by simp only [mintRow, hevent]; rfl, fun t => rfl⟩
  | _ => simp [hevent, Event.kind] at hkind

theorem parses_burnRow {pairAddr : Address} {lo hi : ℕ} :
    Parses (burnRow pairAddr) (chain.queryFilter pairAddr .burn lo hi) := by
  intro log hlog
  have hkind := (mem_queryFilter.mp hlog).2.2
  cases hevent : log.event with
  | burn => exact ⟨_, by simp only [burnRow, hevent]; rfl, fun t => rfl⟩
  | _ => simp [hevent, Event.kind] at hkind

theorem holds_indexPairEvents {pairAddr : Address} {lo hi : ℕ} (hhi : hi ≤ c₀.2.head) :
    Holds (servers chain contracts Faulty) A (Mid c₀ rows) (indexPairEvents pairAddr lo hi)
      (fun _ => Mid c₀ (rows + pairRefs chain lo hi pairAddr))
      (Bounded c₀ (rows + pairRefs chain lo hi pairAddr)) := by
  set swaps := chain.queryFilter pairAddr .swap lo hi with hswaps
  set mints := chain.queryFilter pairAddr .mint lo hi with hmints
  set burns := chain.queryFilter pairAddr .burn lo hi with hburns
  have htotal : rows + pairRefs chain lo hi pairAddr =
      rows + refs swaps + refs mints + refs burns := by
    simp only [pairRefs, add_assoc, hswaps, hmints, hburns]
  rw [htotal]
  have hle₂ : rows + refs swaps + refs mints ≤ rows + refs swaps + refs mints + refs burns :=
    Multiset.le_add_right _ _
  have hle₁ : rows + refs swaps ≤ rows + refs swaps + refs mints + refs burns :=
    (Multiset.le_add_right _ _).trans hle₂
  have hle₀ : rows ≤ rows + refs swaps + refs mints + refs burns :=
    (Multiset.le_add_right _ _).trans hle₁
  unfold indexPairEvents
  have hquery : ∀ {kind : EventKind} {k : List EventLog → Program Unit}
      {Q : Unit → Memory × Backend → Prop} {X : Memory × Backend → Prop},
      (∀ c, Mid c₀ rows c → X c) →
      Holds (servers chain contracts Faulty) A (Mid c₀ rows)
        (k (chain.queryFilter pairAddr kind lo hi)) Q X →
      Holds (servers chain contracts Faulty) A (Mid c₀ rows)
        (queryFilter pairAddr kind lo hi >>= k) Q X := by
    intro kind k Q X hX hk
    refine Holds.bind ((holds_queryFilter hhi).mono (fun _ hc => hc) (fun _ _ hc => hc) hX) ?_
    intro logs
    refine Holds.assume ?_
    rintro rfl
    exact hk
  refine hquery (fun c hc => hc.bounded hle₀) ?_
  refine hquery (fun c hc => hc.bounded hle₀) ?_
  refine hquery (fun c hc => hc.bounded hle₀) ?_
  refine hquery (fun c hc => hc.bounded hle₀) ?_
  refine Holds.bind ((holds_createRows parses_swapRow).mono (fun _ hc => hc) (fun _ _ hc => hc)
    fun _ hc => ⟨hc.1, hc.2.trans hle₁⟩) fun _ => ?_
  refine Holds.bind ((holds_createRows parses_mintRow).mono (fun _ hc => hc) (fun _ _ hc => hc)
    fun _ hc => ⟨hc.1, hc.2.trans hle₂⟩) fun _ => ?_
  refine (holds_createRows parses_burnRow).bind fun _ => ?_
  split
  · exact (holds_quiet' rfl).mono (fun _ hc => hc) (fun _ _ hc => hc) fun _ hc => hc.bounded le_rfl
  · exact Holds.pure fun _ hc => hc

/-! ### The pass -/

/-- A pass keeps what is kept by the query for new pairs, by tracking each pair that the
query has found, and by the events of any pair. -/
theorem holds_processBlockRange_keeps {I X : Memory × Backend → Prop} {L : EventLog → Prop}
    {lo hi : ℕ}
    (hfilter : Holds (servers chain contracts Faulty) A I (queryFilter factory .pairCreated lo hi)
      (fun logs c => I c ∧ ∀ log ∈ logs, L log) X)
    (htrack : ∀ log, L log → ∀ token0 token1 pair n,
      log.event = .pairCreated token0 token1 pair n →
      Holds (servers chain contracts Faulty) A I
        (handlePairCreated token0 token1 pair log.ref.blockNumber) (fun _ => I) X)
    (hindex : ∀ pair, Holds (servers chain contracts Faulty) A I (indexPairEvents pair lo hi)
      (fun _ => I) X) :
    Holds (servers chain contracts Faulty) A I (processBlockRange factory lo hi) (fun _ => I) X := by
  unfold processBlockRange
  apply Holds.bind hfilter
  intro logs
  apply Holds.assume
  intro hlogs
  apply Holds.bind (Q := fun _ => I)
  · apply Holds.forEach_keeps
    intro log hlog
    split
    · next token0 token1 pair n hevent =>
      exact htrack log (hlogs log hlog) token0 token1 pair n hevent
    · exact Holds.pure fun c hc => hc
  · intro _
    apply Holds.bind (Q := fun _ => I)
    · exact Holds.get.mono (fun c hc => hc) (fun _ c hc => hc.1) fun c hc => hc
    · intro memory
      exact Holds.forEach_keeps fun pair _ => hindex pair

/-- The pair that the log announces, if any, is tracked. -/
def TracksPair (log : EventLog) (c : Memory × Backend) : Prop :=
  ∀ token0 token1 pair n, log.event = .pairCreated token0 token1 pair n → pair ∈ c.1.trackedPairs

theorem TracksPair.mono {log : EventLog} {c c' : Memory × Backend} (h : TracksPair log c)
    (hsub : c.1.trackedPairs ⊆ c'.1.trackedPairs) : TracksPair log c' :=
  fun token0 token1 pair n hevent => hsub (h token0 token1 pair n hevent)

theorem holds_pairCreated {log : EventLog} :
    Holds (servers chain contracts Faulty) A (Mid c₀ rows)
      (match log.event with
      | .pairCreated token0 token1 pair _ => handlePairCreated token0 token1 pair log.ref.blockNumber
      | _ => pure ())
      (fun _ c => Mid c₀ rows c ∧ TracksPair log c) (Mid c₀ rows) := by
  unfold TracksPair
  cases hevent : log.event with
  | pairCreated token0 token1 pair n =>
    refine holds_handlePairCreated.mono (fun _ hc => hc) ?_ fun _ hc => hc
    rintro _ c ⟨hmid, hmem⟩
    refine ⟨hmid, ?_⟩
    rintro _ _ _ _ ⟨⟩
    exact hmem
  | _ => exact Holds.pure fun _ hc => ⟨hc, nofun⟩

theorem holds_pairsCreated {logs : List EventLog} :
    Holds (servers chain contracts Faulty) A (Mid c₀ rows)
      (Async.forEach logs fun log =>
        match log.event with
        | .pairCreated token0 token1 pair _ =>
          handlePairCreated token0 token1 pair log.ref.blockNumber
        | _ => pure ())
      (fun _ c => Mid c₀ rows c ∧ ∀ log ∈ logs, TracksPair log c) (Mid c₀ rows) := by
  let I : List EventLog → Memory × Backend → Prop := fun rest c =>
    Mid c₀ rows c ∧ ∀ log ∈ logs, log ∈ rest ∨ TracksPair log c
  have hloop : Holds (servers chain contracts Faulty) A (I logs)
      (Async.forEach logs fun log =>
        match log.event with
        | .pairCreated token0 token1 pair _ =>
          handlePairCreated token0 token1 pair log.ref.blockNumber
        | _ => pure ())
      (fun _ => I []) (Mid c₀ rows) := by
    apply Holds.forEach
    intro log rest c o c' hc hrun
    obtain ⟨hmid, htracked⟩ := hc
    have hstart : Mid c rows c := ⟨hmid.1.coherent.frame, hmid.2⟩
    have hback : ∀ c', Mid c rows c' → Mid c₀ rows c' := fun c' h => ⟨hmid.1.trans h.1, h.2⟩
    have hpost := holds_pairCreated c o c' hstart hrun
    cases o with
    | returned a =>
      obtain ⟨hmid', hpair⟩ := hpost
      refine ⟨hback c' hmid', fun log' hlog' => ?_⟩
      rcases htracked log' hlog' with hrest | htr
      · rcases List.mem_cons.mp hrest with rfl | hrest
        · exact .inr hpair
        · exact .inl hrest
      · exact .inr (htr.mono hmid'.1.tracked)
    | threw e => exact hback c' hpost
    | killed => exact hback c' hpost
  refine hloop.mono (fun c hc => ⟨hc, fun log hlog => .inl hlog⟩) ?_ fun _ hc => hc
  intro _ c hc
  exact ⟨hc.1, fun log hlog => (hc.2 log hlog).resolve_left List.not_mem_nil⟩

theorem holds_indexPairs {pairs : List Address} {lo hi : ℕ} (hhi : hi ≤ c₀.2.head) :
    Holds (servers chain contracts Faulty) A (Mid c₀ rows)
      (Async.forEach pairs fun pairAddr => indexPairEvents pairAddr lo hi)
      (fun _ => Mid c₀ (rows + (pairs.map (pairRefs chain lo hi)).sum))
      (Bounded c₀ (rows + (pairs.map (pairRefs chain lo hi)).sum)) := by
  let I : List Address → Memory × Backend → Prop := fun rest c =>
    ∃ done, Mid c₀ done c ∧ done + (rest.map (pairRefs chain lo hi)).sum =
      rows + (pairs.map (pairRefs chain lo hi)).sum
  have hloop : Holds (servers chain contracts Faulty) A (I pairs)
      (Async.forEach pairs fun pairAddr => indexPairEvents pairAddr lo hi)
      (fun _ => I []) (Bounded c₀ (rows + (pairs.map (pairRefs chain lo hi)).sum)) := by
    apply Holds.forEach
    intro pair rest c o c' hc hrun
    obtain ⟨done, hmid, hsum⟩ := hc
    rw [List.map_cons, List.sum_cons, ← add_assoc] at hsum
    have hbound := (Multiset.le_add_right _ _).trans_eq hsum
    have hpost := holds_indexPairEvents hhi c o c' hmid hrun
    cases o with
    | returned a => exact ⟨_, hpost, hsum⟩
    | threw e => exact ⟨hpost.1, hpost.2.trans hbound⟩
    | killed => exact ⟨hpost.1, hpost.2.trans hbound⟩
  refine hloop.mono (fun c hc => ⟨rows, hc, rfl⟩) ?_ fun _ hc => hc
  intro _ c hc
  obtain ⟨done, hmid, hsum⟩ := hc
  rw [List.map_nil, List.sum_nil, add_zero] at hsum
  exact hsum ▸ hmid

/-- A pass that returns has worked through a set of pairs, the tracked ones and those
created in the range among them. One that is cut short has done so in part. -/
theorem holds_processBlockRange {lo hi : ℕ} (hhi : hi ≤ c₀.2.head) :
    Holds (servers chain contracts Faulty) A (Mid c₀ rows) (processBlockRange factory lo hi)
      (fun _ c => ∃ pairs : List Address, pairs.Nodup ∧ c₀.1.trackedPairs ⊆ pairs ∧
        pairs ⊆ c.1.trackedPairs ∧ (∀ pair, chain.Creates lo hi pair → pair ∈ pairs) ∧
        Mid c₀ (rows + (pairs.map (pairRefs chain lo hi)).sum) c)
      (fun c => ∃ pairs : List Address, pairs.Nodup ∧ pairs ⊆ c.1.trackedPairs ∧
        Bounded c₀ (rows + (pairs.map (pairRefs chain lo hi)).sum) c) := by
  have hnone : ∀ c, Mid c₀ rows c → ∃ pairs : List Address, pairs.Nodup ∧
      pairs ⊆ c.1.trackedPairs ∧ Bounded c₀ (rows + (pairs.map (pairRefs chain lo hi)).sum) c :=
    fun c hc => ⟨[], List.nodup_nil, List.nil_subset _, hc.bounded (Multiset.le_add_right _ _)⟩
  unfold processBlockRange
  refine Holds.bind ((holds_queryFilter hhi).mono (fun _ hc => hc) (fun _ _ hc => hc) hnone)
    fun created => ?_
  refine Holds.assume ?_
  rintro rfl
  refine Holds.bind (holds_pairsCreated.mono (fun _ hc => hc) (fun _ _ hc => hc) hnone)
    fun _ => ?_
  refine Holds.get.bind fun memory => ?_
  intro c o c' hc hrun
  obtain ⟨⟨hmid, hcreated⟩, rfl⟩ := hc
  have hstart : Mid c rows c := ⟨hmid.1.coherent.frame, hmid.2⟩
  have hpost := holds_indexPairs (hhi.trans hmid.1.head) c o c' hstart hrun
  cases o with
  | returned a =>
    refine ⟨c.1.trackedPairs, hmid.1.nodup, hmid.1.tracked, hpost.1.tracked, ?_,
      hmid.1.trans hpost.1, hpost.2⟩
    rintro pair ⟨b, hlo, hb, log, hlog, hfactory, hevent⟩
    obtain ⟨i, hi'⟩ := List.mem_iff_getElem?.mp hlog
    cases hkind : log.event with
    | pairCreated token0 token1 p n =>
      rw [hkind] at hevent
      obtain rfl : p = pair := hevent
      refine hcreated { log with ref := ⟨b, i⟩ } ?_ token0 token1 p n hkind
      refine mem_queryFilter.mpr ⟨mem_logs.mpr ⟨b, hlo, hb, mem_blockLogs.mpr ⟨rfl, hi'⟩⟩,
        hfactory, ?_⟩
      rw [show ({ log with ref := ⟨b, i⟩ } : EventLog).event = log.event from rfl, hkind]
      rfl
    | _ => simp [hkind] at hevent
  | threw e => exact ⟨_, hmid.1.nodup, hpost.1.tracked, hmid.1.trans hpost.1, hpost.2⟩
  | killed => exact ⟨_, hmid.1.nodup, hpost.1.tracked, hmid.1.trans hpost.1, hpost.2⟩

/-- However a pass ends, it created rows of events of tracked pairs in its range. -/
theorem holds_processBlockRange_bounded {lo hi : ℕ} (hhi : hi ≤ c₀.2.head) :
    Holds (servers chain contracts Faulty) A (Mid c₀ rows) (processBlockRange factory lo hi)
      (fun _ c => ∃ pairs : List Address, pairs.Nodup ∧ pairs ⊆ c.1.trackedPairs ∧
        Bounded c₀ (rows + (pairs.map (pairRefs chain lo hi)).sum) c)
      (fun c => ∃ pairs : List Address, pairs.Nodup ∧ pairs ⊆ c.1.trackedPairs ∧
        Bounded c₀ (rows + (pairs.map (pairRefs chain lo hi)).sum) c) := by
  refine (holds_processBlockRange hhi).mono (fun _ hc => hc) ?_ fun _ hc => hc
  rintro _ c ⟨pairs, hnodup, -, hsub, -, hmid⟩
  exact ⟨pairs, hnodup, hsub, hmid.bounded le_rfl⟩

end

end EnergyChain.Indexer
