import EnergyChain.Indexer.Coverage
import EnergyChain.Indexer.PairOrigins

/-!
# What the rows say

A row is the copy of the log it was created from: the amounts as decimal text,
the accounts, the transaction, and the time stamp of its block. The node is asked
for a block only after it has reported a log of it, so that no row is left with
the time zero. With the results on coverage and on duplicates, runs without gaps
and repetitions have exactly the copies of the logs.
-/

namespace EnergyChain.Indexer

variable {factory : Address} {chain : Chain factory} {contracts : Address → TokenContract}
  {Faulty : Prop} {A : Request → Memory → Backend → Prop} {startBlock : ℕ}

def Database.rows (db : Database) : List Row :=
  db.swaps.map .swap ++ db.mints.map .mint ++ db.burns.map .burn

/-- The row that a log should have. -/
def Chain.rowOf (chain : Chain factory) (log : EventLog) : Option Row :=
  (swapRow log.address log <|> mintRow log.address log <|> burnRow log.address log).map
    fun parsed => parsed ((chain.block log.ref.blockNumber).timestamp * 1000)

/-- Every row is the row of a log of the chain. -/
def Copied (chain : Chain factory) (db : Database) : Prop :=
  ∀ row ∈ db.rows, ∃ log ∈ chain.blockLogs row.log.blockNumber, chain.rowOf log = some row

/-! ### Rows and logs -/

theorem recorded_eq (db : Database) : db.recorded = ↑(db.rows.map Row.log) := by
  simp only [Database.recorded, Database.rows, List.map_append, List.map_map, Multiset.coe_add]
  rfl

theorem mem_rows_insert {db : Database} {row row' : Row} :
    row' ∈ (row.insert db).rows ↔ row' ∈ db.rows ∨ row' = row := by
  cases row with
  | swap row =>
    simp only [Row.insert, Database.rows, List.map_append, List.map_singleton, List.mem_append,
      List.mem_singleton]
    tauto
  | mint row =>
    simp only [Row.insert, Database.rows, List.map_append, List.map_singleton, List.mem_append,
      List.mem_singleton]
    tauto
  | burn row =>
    simp only [Row.insert, Database.rows, List.map_append, List.map_singleton, List.mem_append,
      List.mem_singleton]
    tauto

theorem rowOf_of_swapRow {log : EventLog} {parsed : ℕ → Row}
    (h : swapRow log.address log = some parsed) :
    chain.rowOf log = some (parsed ((chain.block log.ref.blockNumber).timestamp * 1000)) := by
  simp [Chain.rowOf, h]

theorem rowOf_of_mintRow {log : EventLog} {parsed : ℕ → Row}
    (h : mintRow log.address log = some parsed) :
    chain.rowOf log = some (parsed ((chain.block log.ref.blockNumber).timestamp * 1000)) := by
  have hswap : swapRow log.address log = none := by
    unfold mintRow at h
    unfold swapRow
    cases hevent : log.event <;> simp_all
  simp [Chain.rowOf, h, hswap]

theorem rowOf_of_burnRow {log : EventLog} {parsed : ℕ → Row}
    (h : burnRow log.address log = some parsed) :
    chain.rowOf log = some (parsed ((chain.block log.ref.blockNumber).timestamp * 1000)) := by
  have hswap : swapRow log.address log = none := by
    unfold burnRow at h
    unfold swapRow
    cases hevent : log.event <;> simp_all
  have hmint : mintRow log.address log = none := by
    unfold burnRow at h
    unfold mintRow
    cases hevent : log.event <;> simp_all
  simp [Chain.rowOf, h, hswap, hmint]

theorem log_of_rowOf {log : EventLog} {row : Row} (h : chain.rowOf log = some row) :
    row.log = log.ref ∧ row.pairAddr = log.address ∧ log.event.kind ∈ EventKind.recorded := by
  obtain ⟨parsed, hparsed, rfl⟩ := Option.map_eq_some_iff.mp h
  unfold swapRow mintRow burnRow at hparsed
  cases hevent : log.event <;> rw [hevent] at hparsed <;> simp at hparsed
  all_goals
    subst hparsed
    exact ⟨rfl, rfl, by simp [Event.kind, EventKind.recorded]⟩

/-! ### The awaits of a pass -/

/-- The rows are copies, and the chain has at least `n` blocks. -/
def CopiedUpTo (chain : Chain factory) (n : ℕ) (c : Memory × Backend) : Prop :=
  Copied chain c.2.db ∧ n ≤ c.2.head

variable {n : ℕ}

theorem CopiedUpTo.drift {m : Memory} {s s' : Backend} (h : CopiedUpTo chain n (m, s))
    (hd : (servers chain contracts Faulty).drift s s') : CopiedUpTo chain n (m, s') := by
  obtain ⟨hdb, hhead⟩ := hd
  refine ⟨?_, h.2.trans hhead⟩
  rw [hdb]
  exact h.1

theorem rows_serve {q : Request} (hq : ∀ row, q ≠ .create row) (s : Backend) :
    (serve chain contracts q s).2.db.rows = s.db.rows := by
  obtain ⟨n, -, h⟩ | ⟨row, hrow, -⟩ | ⟨tokens, pairs, h, -⟩ := serve_cases chain contracts q s
  · rw [h]
    rfl
  · exact absurd hrow (hq row)
  · rw [h]
    rfl

theorem CopiedUpTo.served {m : Memory} {s : Backend} (h : CopiedUpTo chain n (m, s)) {q : Request}
    (hq : ∀ row, q ≠ .create row) : CopiedUpTo chain n (m, (serve chain contracts q s).2) := by
  constructor
  · rw [Copied, rows_serve hq]
    exact h.1
  · rw [serve_head]
    exact h.2

theorem holds_within {α : Type} {p : Program α}
    (h : p.Within (fun q => ∀ row, q ≠ .create row) fun _ => True) :
    Holds (servers chain contracts Faulty) A (CopiedUpTo chain n) p (fun _ => CopiedUpTo chain n)
      (CopiedUpTo chain n) :=
  h.holds (fun _ _ _ hc hd => hc.drift hd) (fun _ _ _ hq hc => hc.served hq) fun _ _ _ _ hc => hc

/-- What a filter finds is in the range, and on the chain. -/
def Found (chain : Chain factory) (address : Address) (kind : EventKind) (n : ℕ)
    (logs : List EventLog) : Prop :=
  ∀ log ∈ logs, log ∈ chain.blockLogs log.ref.blockNumber ∧ log.ref.blockNumber ≤ n ∧
    log.address = address ∧ log.event.kind = kind

theorem holds_filtered {address : Address} {kind : EventKind} {lo hi : ℕ} (hhi : hi ≤ n) :
    Holds (servers chain contracts Faulty) A (CopiedUpTo chain n) (queryFilter address kind lo hi)
      (fun logs c => CopiedUpTo chain n c ∧ Found chain address kind n logs)
      (CopiedUpTo chain n) := by
  apply Holds.call
  · exact fun c hc => hc
  · intro m s s₁ hc hd hA
    refine ⟨hc.drift hd, ?_⟩
    intro log hlog
    obtain ⟨hlogs, haddress, hkind⟩ := mem_queryFilter.mp hlog
    obtain ⟨b, hlo, hb, hmined⟩ := mem_logs.mp hlogs
    obtain rfl := (mem_blockLogs.mp hmined).1
    exact ⟨hmined, hb.trans ((Nat.min_le_left ..).trans hhi), haddress, hkind⟩
  · exact fun hS m s s₁ hc hd hA => ⟨hc.drift hd, hc.drift hd⟩

theorem holds_getBlock {b : ℕ} (hb : b ≤ n) :
    Holds (servers chain contracts Faulty) A (CopiedUpTo chain n) (getBlock b)
      (fun timestamp c => CopiedUpTo chain n c ∧ timestamp = some (chain.block b).timestamp)
      (CopiedUpTo chain n) := by
  apply Holds.call
  · exact fun c hc => hc
  · intro m s s₁ hc hd hA
    have hle : b ≤ s₁.head := hb.trans (hc.drift hd).2
    simp only [servers, serve, hle, if_true]
    exact ⟨hc.drift hd, trivial⟩
  · exact fun hS m s s₁ hc hd hA => ⟨hc.drift hd, hc.drift hd⟩

theorem holds_createCopy {log : EventLog} {row : Row}
    (hmined : log ∈ chain.blockLogs log.ref.blockNumber) (hrow : chain.rowOf log = some row) :
    Holds (servers chain contracts Faulty) A (CopiedUpTo chain n) (create row)
      (fun _ => CopiedUpTo chain n) (CopiedUpTo chain n) := by
  have hcreated : ∀ {m s}, CopiedUpTo chain n (m, s) →
      CopiedUpTo chain n (m, (serve chain contracts (.create row) s).2) := by
    intro m s hc
    have hstate : (serve chain contracts (.create row) s).2 = s ∨
        (serve chain contracts (.create row) s).2 = { s with db := row.insert s.db } :=
      guardInsert_state ..
    rcases hstate with h | h
    · rw [h]
      exact hc
    · rw [h]
      refine ⟨fun row' hrow' => ?_, hc.2⟩
      rcases mem_rows_insert.mp hrow' with hold | rfl
      · exact hc.1 row' hold
      · exact ⟨log, (log_of_rowOf hrow).1 ▸ hmined, hrow⟩
  apply Holds.call
  · exact fun c hc => hc
  · exact fun m s s₁ hc hd hA => by
      have hpost := hcreated (hc.drift hd)
      simp only [servers]
      split
      · exact hpost
      · exact hpost
  · exact fun hS m s s₁ hc hd hA => ⟨hc.drift hd, hcreated (hc.drift hd)⟩

/-! ### A pass -/

theorem holds_copyRows {row : EventLog → Option (ℕ → Row)} {address : Address} {kind : EventKind}
    {logs : List EventLog} (hfound : Found chain address kind n logs)
    (hrow : ∀ log ∈ logs, ∀ parsed, row log = some parsed →
      chain.rowOf log = some (parsed ((chain.block log.ref.blockNumber).timestamp * 1000))) :
    Holds (servers chain contracts Faulty) A (CopiedUpTo chain n) (createRows row logs)
      (fun _ => CopiedUpTo chain n) (CopiedUpTo chain n) := by
  apply Holds.forEach_keeps
  intro log hlog
  cases hparsed : row log with
  | none => exact Holds.pure fun c hc => hc
  | some parsed =>
    obtain ⟨hmined, hle, -, -⟩ := hfound log hlog
    apply Holds.bind (holds_getBlock hle)
    intro timestamp
    apply Holds.assume
    rintro rfl
    exact holds_createCopy hmined (hrow log hlog parsed hparsed)

theorem holds_copyPairEvents {pairAddr : Address} {lo hi : ℕ} (hhi : hi ≤ n) :
    Holds (servers chain contracts Faulty) A (CopiedUpTo chain n) (indexPairEvents pairAddr lo hi)
      (fun _ => CopiedUpTo chain n) (CopiedUpTo chain n) := by
  unfold indexPairEvents
  apply Holds.bind (holds_filtered hhi)
  intro swapLogs
  apply Holds.assume
  intro hswaps
  apply Holds.bind (holds_filtered hhi)
  intro mintLogs
  apply Holds.assume
  intro hmints
  apply Holds.bind (holds_filtered hhi)
  intro burnLogs
  apply Holds.assume
  intro hburns
  have hquery : ∀ row, Request.queryFilter pairAddr .sync lo hi ≠ .create row := nofun
  apply Holds.bind (holds_within (.call hquery))
  intro syncLogs
  apply Holds.bind (holds_copyRows hswaps _)
  · intro _
    apply Holds.bind (holds_copyRows hmints _)
    · intro _
      apply Holds.bind (holds_copyRows hburns _)
      · intro _
        split
        · exact holds_within (.call nofun)
        · exact Holds.pure fun c hc => hc
      · intro log hlog parsed hparsed
        obtain ⟨-, -, haddress, -⟩ := hburns log hlog
        exact rowOf_of_burnRow (haddress ▸ hparsed)
    · intro log hlog parsed hparsed
      obtain ⟨-, -, haddress, -⟩ := hmints log hlog
      exact rowOf_of_mintRow (haddress ▸ hparsed)
  · intro log hlog parsed hparsed
    obtain ⟨-, -, haddress, -⟩ := hswaps log hlog
    exact rowOf_of_swapRow (haddress ▸ hparsed)

theorem holds_copyRange {lo hi : ℕ} (hhi : hi ≤ n) :
    Holds (servers chain contracts Faulty) A (CopiedUpTo chain n) (processBlockRange factory lo hi)
      (fun _ => CopiedUpTo chain n) (CopiedUpTo chain n) := by
  have hquery : ∀ row, Request.queryFilter factory .pairCreated lo hi ≠ .create row := nofun
  apply holds_processBlockRange_keeps (L := fun _ => True)
  · apply (holds_within (.call hquery)).mono
    · exact fun c hc => hc
    · exact fun logs c hc => ⟨hc, fun _ _ => trivial⟩
    · exact fun c hc => hc
  · intro log _ token0 token1 pair n hevent
    apply holds_within
    apply within_handlePairCreated
    · rintro q htoken row rfl
      cases htoken
    · exact fun _ _ => nofun
  · intro pair
    exact holds_copyPairEvents hhi

/-! ### Runs -/

theorem copyRule : PassRule chain contracts Faulty A startBlock
    (fun _ c => Coherent c ∧ Copied chain c.2.db) (fun _ c => Coherent c ∧ Copied chain c.2.db)
    (fun s => Copied chain s.db) := by
  refine PassRule.ofHolds (V := Copied chain) ?_ (fun h _ => h)
    fun row hrow => absurd hrow List.not_mem_nil
  intro lo hi n hhi
  exact (holds_copyRange hhi).mono (fun _ hc => hc) (fun _ _ hc => hc.1) fun _ hc => hc.1

/-- In every state the indexer reaches, however its awaits failed, each row is the copy
of a log of the chain, emitted by a pair that the factory created no later. -/
theorem rows_copy_logs (chain : Chain factory) (contracts : Address → TokenContract)
    (Faulty : Prop) (startBlock : ℕ) (s : System)
    (h : Reach startBlock chain contracts Faulty (fun _ _ _ => True) s) :
    ∀ row ∈ s.backend.db.rows, ∃ log ∈ chain.blockLogs row.log.blockNumber,
      chain.rowOf log = some row ∧
      ∃ b, b ≤ row.log.blockNumber ∧ chain.CreatedIn log.address b := by
  intro row hrow
  obtain ⟨log, hmined, hcopy⟩ := copyRule.stored_of_reach h row hrow
  have hrecorded : row.log ∈ s.backend.db.recorded := by
    rw [recorded_eq]
    exact Multiset.mem_coe.mpr (List.mem_map_of_mem hrow)
  obtain ⟨pair, ⟨log', hmined', href, rfl, -⟩, b, hle, hcreated⟩ := created_of_recorded h hrecorded
  -- the log that the row copies and the one that the pair emitted have one position
  have hcopied : log.ref = row.log := (log_of_rowOf hcopy).1.symm
  obtain rfl : log = log' := eq_of_ref_eq (by rw [hcopied]; exact hmined)
    (by rw [href]; exact hmined') (hcopied.trans href.symm)
  exact ⟨log, hmined, hcopy, b, hle, hcreated⟩

/-- Block 1 is there when the process starts, and block 2 when it polls first. -/
theorem rows_copy_logs_growing :
    (sampleRun False 1 2).2.2.db.rows.length = 2 ∧
      ∀ row ∈ (sampleRun False 1 2).2.2.db.rows,
        ∃ log ∈ sampleChain.blockLogs row.log.blockNumber, sampleChain.rowOf log = some row ∧
        ∃ b, b ≤ row.log.blockNumber ∧ sampleChain.CreatedIn log.address b := by
  have hstart : Reach 0 sampleChain sampleContracts False (fun _ _ _ => True)
      ⟨(sampleRun False 1 2).1.2, some (sampleRun False 1 2).1.1⟩ :=
    (Reach.initial 1).execStart 1 le_rfl (by decide +kernel) (by decide +kernel)
  have hpoll : Reach 0 sampleChain sampleContracts False (fun _ _ _ => True)
      ⟨(sampleRun False 1 2).2.2, some (sampleRun False 1 2).2.1⟩ :=
    hstart.execPoll 2 (by decide +kernel) (by decide +kernel) (by decide +kernel)
  exact ⟨by decide +kernel, rows_copy_logs sampleChain sampleContracts False 0 _ hpoll⟩

theorem filter_key_eq {α κ : Type} [DecidableEq κ] (key : α → κ) {xs : List α} {x : α}
    (h : (xs.map key).Nodup) (hx : x ∈ xs) : xs.filter (fun y => key y = key x) = [x] := by
  induction xs with
  | nil => cases hx
  | cons y xs ih =>
    obtain ⟨hnew, hrest⟩ := List.nodup_cons.mp h
    rcases List.mem_cons.mp hx with rfl | hx
    · have hnone : xs.filter (fun y => key y = key x) = [] := by
        apply List.filter_eq_nil_iff.mpr
        intro z hz hkey
        exact hnew (of_decide_eq_true hkey ▸ List.mem_map_of_mem hz)
      rw [List.filter_cons_of_pos (by simp), hnone]
    · have hne : key y ≠ key x := fun hkey => hnew (hkey ▸ List.mem_map_of_mem hx)
      rw [List.filter_cons_of_neg (by simpa using hne)]
      exact ih hrest hx

/-- Runs that neither skip nor repeat blocks have one row for each event up to the stored
cursor, and that row is its copy. -/
theorem one_copy_each (chain : Chain factory) (contracts : Address → TokenContract)
    (Faulty : Prop) (startBlock : ℕ) (s : System)
    (h : Reach startBlock chain contracts Faulty
      (fun q m s => FreshRange q m s ∧ SkipsNothing chain startBlock q m s) s)
    (L : ℕ) (hL : s.backend.db.lastBlock = some L) (log : EventLog)
    (hlog : log ∈ chain.logs startBlock L) (hkind : log.event.kind ∈ EventKind.recorded)
    (hcreates : chain.Creates startBlock L log.address) :
    ∃ row, chain.rowOf log = some row ∧
      s.backend.db.rows.filter (fun row => row.log = log.ref) = [row] := by
  have hnodup : s.backend.db.recorded.Nodup :=
    nodupRule.stored_of_reach (h.mono fun _ _ _ hA => hA.1)
  have hall := allIndexed_of_complete
    (coverageRule.stored_of_reach (h.mono fun _ _ _ hA => hA.2))
  have hcopied : Copied chain s.backend.db := copyRule.stored_of_reach h
  have hrecorded := hall L hL log hlog hkind hcreates
  rw [recorded_eq] at hnodup hrecorded
  obtain ⟨row, hrow, href⟩ := List.mem_map.mp (Multiset.mem_coe.mp hrecorded)
  obtain ⟨log', hmined', hcopy⟩ := hcopied row hrow
  have hsame : log'.ref = log.ref := (log_of_rowOf hcopy).1.symm.trans href
  obtain ⟨b, -, -, hmined⟩ := mem_logs.mp hlog
  obtain rfl := (mem_blockLogs.mp hmined).1
  obtain rfl : log = log' := eq_of_ref_eq hmined (by rw [hsame, ← href]; exact hmined') hsame.symm
  have hone := filter_key_eq Row.log (Multiset.coe_nodup.mp hnodup) hrow
  rw [href] at hone
  exact ⟨row, hcopy, hone⟩

def sampleSwapLog : EventLog where
  address := samplePair
  transactionHash := 3
  event := .swap ⟨1⟩ 10 0 0 9 ⟨1⟩
  ref := ⟨2, 0⟩

theorem one_copy_each_growing :
    ∃ row, sampleChain.rowOf sampleSwapLog = some row ∧
      (sampleRun False 1 2).2.2.db.rows.filter (fun row => row.log = sampleSwapLog.ref) = [row] := by
  have hweaker : ∀ q m s, FreshRange q m s ∧ NoGap 0 q m s →
      FreshRange q m s ∧ SkipsNothing sampleChain 0 q m s :=
    fun _ _ _ h => ⟨h.1, skipsNothing_of_noGap h.2⟩
  have hstart : Reach 0 sampleChain sampleContracts False (fun q m s => FreshRange q m s ∧
      NoGap 0 q m s) ⟨(sampleRun False 1 2).1.2, some (sampleRun False 1 2).1.1⟩ :=
    (Reach.initial 1).execStart 1 le_rfl (by decide +kernel) (by decide +kernel)
  have hpoll : Reach 0 sampleChain sampleContracts False (fun q m s => FreshRange q m s ∧
      NoGap 0 q m s) ⟨(sampleRun False 1 2).2.2, some (sampleRun False 1 2).2.1⟩ :=
    hstart.execPoll 2 (by decide +kernel) (by decide +kernel) (by decide +kernel)
  exact one_copy_each sampleChain sampleContracts False 0 _ (hpoll.mono hweaker) 2
    (by decide +kernel) sampleSwapLog (by decide +kernel) (by decide +kernel)
    ⟨1, by decide, by decide, by decide +kernel⟩

end EnergyChain.Indexer
