import EnergyChain.Audit.Immutability
import EnergyChain.Foundations.Fallible

/-!
# x/audit: the index tables

Every stored log is listed under its actor, its event type and its time. In the
other direction an index key names a stored log, and that log has the key as
its own unless the counter has wrapped around and its ID was used again.
-/

namespace EnergyChain.Audit

variable (sha256 : Bytes → Bytes)

def indexKeys (log : AuditLog) : List Bytes :=
  [getAuditByActorKey log.actor log.id, getAuditByTypeKey log.eventType log.id,
    getAuditByTimeKey log.timestamp log.id]

/-- The key belongs to one of the three index tables. -/
def IsIndexKey (k : Bytes) : Prop :=
  k.head? = some 0x02 ∨ k.head? = some 0x03 ∨ k.head? = some 0x05

def Stored (store : KVStore) (log : AuditLog) : Prop :=
  getAuditLog store log.id = .ok (some log)

/-- The stored logs have `P` and are listed in the indexes, which list nothing else. -/
structure Indexed (P : AuditLog → Prop) (store : KVStore) : Prop where
  table : ∀ k, k.head? = some 0x01 → store.has k = true → ∃ id, k = getAuditLogKey id
  logs : ∀ id v, store.get (getAuditLogKey id) = some v → ∃ log : AuditLog, log.id = id ∧
    v = marshal log ∧ P log ∧ ∀ k ∈ indexKeys log, store.has k = true
  keys : ∀ k, IsIndexKey k → store.has k = true → ∃ log : AuditLog, P log ∧ k ∈ indexKeys log ∧
    store.has (getAuditLogKey log.id) = true

/-- The log that an index key names has it as its own. -/
def Current (P : AuditLog → Prop) (store : KVStore) : Prop :=
  ∀ k, IsIndexKey k → store.has k = true → ∃ log : AuditLog, P log ∧ k ∈ indexKeys log ∧
    store.get (getAuditLogKey log.id) = some (marshal log)

/-! ### One more log -/

theorem isIndexKey_of_mem {k : Bytes} {log : AuditLog} (h : k ∈ indexKeys log) : IsIndexKey k := by
  simp only [indexKeys, List.mem_cons, List.not_mem_nil, or_false] at h
  rcases h with rfl | rfl | rfl
  · exact Or.inl rfl
  · exact Or.inr (Or.inl rfl)
  · exact Or.inr (Or.inr rfl)

theorem not_isIndexKey_logKey (id : UInt64) : ¬ IsIndexKey (getAuditLogKey id) := by
  simp [IsIndexKey, getAuditLogKey, auditLogKey]

theorem get_recordAuditLog_indexKey (store : KVStore) (log : AuditLog) {k : Bytes}
    (hk : IsIndexKey k) : (recordAuditLog store log).get k =
      if k ∈ indexKeys log then some (.raw [0x01]) else store.get k := by
  have hlog : k ≠ getAuditLogKey log.id := by
    rintro rfl
    exact not_isIndexKey_logKey _ hk
  simp only [recordAuditLog, OrderedStore.get_set, indexKeys, List.mem_cons, List.not_mem_nil,
    or_false, if_neg hlog]
  split_ifs <;> simp_all

theorem get_incrementCounter_indexKey (store : KVStore) (id : UInt64) {k : Bytes}
    (hk : IsIndexKey k) : (incrementCounter store id).get k = store.get k := by
  refine OrderedStore.get_set_of_ne _ ?_ _
  rintro rfl
  simp [IsIndexKey, auditCounterKey] at hk

theorem get_recordAuditLog_of_ne (store : KVStore) (log : AuditLog) {k : Bytes}
    (hk : k.head? = some 0x01) (hne : k ≠ getAuditLogKey log.id) :
    (recordAuditLog store log).get k = store.get k := by
  have hindex : ∀ k' ∈ indexKeys log, k ≠ k' := by
    rintro k' hk' rfl
    have hhead := isIndexKey_of_mem hk'
    simp [IsIndexKey, hk] at hhead
  simp only [indexKeys, List.mem_cons, List.not_mem_nil, or_false, forall_eq_or_imp,
    forall_eq] at hindex
  rw [recordAuditLog, OrderedStore.get_set_of_ne _ hindex.2.2,
    OrderedStore.get_set_of_ne _ hindex.2.1, OrderedStore.get_set_of_ne _ hindex.1,
    OrderedStore.get_set_of_ne _ hne]

variable {P P' : AuditLog → Prop} {store : KVStore}

theorem Indexed.mono (h : Indexed P store) (hP : ∀ log, P log → P' log) : Indexed P' store where
  table := h.table
  logs := by
    intro id v hv
    obtain ⟨log, hid, hv', hlog, hkeys⟩ := h.logs id v hv
    exact ⟨log, hid, hv', hP log hlog, hkeys⟩
  keys := by
    intro k hk hhas
    obtain ⟨log, hlog, hmem, hstored⟩ := h.keys k hk hhas
    exact ⟨log, hP log hlog, hmem, hstored⟩

theorem Current.mono (h : Current P store) (hP : ∀ log, P log → P' log) : Current P' store := by
  intro k hk hhas
  obtain ⟨log, hlog, hmem, hget⟩ := h k hk hhas
  exact ⟨log, hP log hlog, hmem, hget⟩

theorem has_recordAuditLog {k : Bytes} (h : store.has k = true) (log : AuditLog) :
    (recordAuditLog store log).has k = true :=
  OrderedStore.has_set (OrderedStore.has_set (OrderedStore.has_set (OrderedStore.has_set h _ _)
    _ _) _ _) _ _

theorem Indexed.record (h : Indexed P store) {log : AuditLog} (hlog : P log) :
    Indexed P (recordAuditLog store log) where
  table := by
    intro k hk hhas
    by_cases hkey : k = getAuditLogKey log.id
    · exact ⟨log.id, hkey⟩
    · rw [OrderedStore.has, get_recordAuditLog_of_ne _ _ hk hkey] at hhas
      exact h.table k hk hhas
  logs := by
    intro id v hv
    rw [get_recordAuditLog_logKey] at hv
    split_ifs at hv with hid
    · refine ⟨log, hid.symm, (Option.some.inj hv).symm, hlog, fun k hk => ?_⟩
      rw [OrderedStore.has, get_recordAuditLog_indexKey _ _ (isIndexKey_of_mem hk), if_pos hk]
      rfl
    · obtain ⟨log', hid', hv', hP, hkeys⟩ := h.logs id v hv
      exact ⟨log', hid', hv', hP, fun k hk => has_recordAuditLog (hkeys k hk) log⟩
  keys := by
    intro k hk hhas
    rw [OrderedStore.has, get_recordAuditLog_indexKey _ _ hk] at hhas
    split_ifs at hhas with hmem
    · refine ⟨log, hlog, hmem, ?_⟩
      rw [OrderedStore.has, get_recordAuditLog_logKey, if_pos rfl]
      rfl
    · obtain ⟨log', hP, hmem', hstored⟩ := h.keys k hk hhas
      exact ⟨log', hP, hmem', has_recordAuditLog hstored log⟩

theorem Indexed.increment (h : Indexed P store) (id : UInt64) :
    Indexed P (incrementCounter store id) where
  table := by
    intro k hk hhas
    have hne : k ≠ auditCounterKey := by
      rintro rfl
      simp [auditCounterKey] at hk
    rw [OrderedStore.has, incrementCounter, OrderedStore.get_set_of_ne _ hne] at hhas
    exact h.table k hk hhas
  logs := by
    intro id' v hv
    rw [get_incrementCounter_logKey] at hv
    obtain ⟨log, hid, hv', hP, hkeys⟩ := h.logs id' v hv
    refine ⟨log, hid, hv', hP, fun k hk => ?_⟩
    rw [OrderedStore.has, get_incrementCounter_indexKey _ _ (isIndexKey_of_mem hk)]
    exact hkeys k hk
  keys := by
    intro k hk hhas
    rw [OrderedStore.has, get_incrementCounter_indexKey _ _ hk] at hhas
    obtain ⟨log, hP, hmem, hstored⟩ := h.keys k hk hhas
    refine ⟨log, hP, hmem, ?_⟩
    rw [OrderedStore.has, get_incrementCounter_logKey]
    exact hstored

/-- A log under an unused ID leaves the keys of the others theirs. -/
theorem Current.record (h : Current P store) {log : AuditLog} (hlog : P log)
    (hnew : store.get (getAuditLogKey log.id) = none) : Current P (recordAuditLog store log) := by
  intro k hk hhas
  rw [OrderedStore.has, get_recordAuditLog_indexKey _ _ hk] at hhas
  split_ifs at hhas with hmem
  · exact ⟨log, hlog, hmem, by rw [get_recordAuditLog_logKey, if_pos rfl]⟩
  · obtain ⟨log', hlog', hmem', hget⟩ := h k hk hhas
    refine ⟨log', hlog', hmem', ?_⟩
    have hne : log'.id ≠ log.id := by
      intro heq
      rw [heq, hnew] at hget
      cases hget
    rw [get_recordAuditLog_logKey, if_neg hne]
    exact hget

theorem Current.increment (h : Current P store) (id : UInt64) :
    Current P (incrementCounter store id) := by
  intro k hk hhas
  rw [OrderedStore.has, get_incrementCounter_indexKey _ _ hk] at hhas
  obtain ⟨log, hlog, hmem, hget⟩ := h k hk hhas
  exact ⟨log, hlog, hmem, by rw [get_incrementCounter_logKey, hget]⟩

/-! ### Runs from the default genesis -/

theorem genesisStore_default_get {k : Bytes} (hk : k ≠ paramsKey) :
    (genesisStore defaultGenesis).get k = none := OrderedStore.get_set_of_ne _ hk _

theorem genesisStore_indexed (P : AuditLog → Prop) : Indexed P (genesisStore defaultGenesis) where
  table := by
    intro k hk hhas
    have hne : k ≠ paramsKey := by
      rintro rfl
      simp [paramsKey] at hk
    rw [OrderedStore.has, genesisStore_default_get hne] at hhas
    cases hhas
  logs := by
    intro id v hv
    rw [genesisStore_default_get (by simp [getAuditLogKey, auditLogKey, paramsKey])] at hv
    cases hv
  keys := by
    intro k hk hhas
    have hne : k ≠ paramsKey := by
      rintro rfl
      simp [IsIndexKey, paramsKey] at hk
    rw [OrderedStore.has, genesisStore_default_get hne] at hhas
    cases hhas

theorem run_indexed {ms : List (Context × MsgRecordAudit)}
    (hP : ∀ m ∈ ms, ∀ id, P (m.2.log sha256 m.1 id)) :
    Indexed P (runFrom sha256 defaultGenesis ms) := by
  refine (deliver sha256).run_invariant ms (genesisStore_indexed P) fun store h m hm => ?_
  rcases deliver_cases sha256 store m with ⟨e, he⟩ | hok
  · rwa [he]
  · rw [hok]
    exact (h.record (hP m hm _)).increment _

/-- Up to the wrap of the counter every index key is current. -/
theorem run_current {ms : List (Context × MsgRecordAudit)} (hwrap : NoWrap sha256 defaultGenesis ms)
    (hP : ∀ m ∈ ms, ∀ id, P (m.2.log sha256 m.1 id)) :
    Current P (runFrom sha256 defaultGenesis ms) := by
  induction ms using List.reverseRecOn with
  | nil =>
    intro k hk hhas
    obtain ⟨log, hlog, -⟩ := (genesisStore_indexed fun _ => False).keys k hk hhas
    cases hlog
  | append_singleton ms m ih =>
    have hcurrent := ih (noWrap_of_append sha256 defaultGenesis hwrap) fun m' hm' =>
      hP m' (List.mem_append_left _ hm')
    by_cases hacc : (deliver sha256).Accepts (runFrom sha256 defaultGenesis ms) m
    · have hunused := nextID_unused sha256 defaultGenesis (by simp [defaultGenesis]) hwrap hacc
      rw [(runFrom_accept sha256 defaultGenesis ms m hacc).1]
      exact (hcurrent.record (hP m (by simp) _) (by rw [MsgRecordAudit.log_id, hunused])).increment _
    · rw [(runFrom_reject sha256 defaultGenesis ms m hacc).1]
      exact hcurrent

/-! ### Reading the logs of index entries -/

theorem Indexed.exists_stored (h : Indexed P store) {id : UInt64}
    (hid : store.has (getAuditLogKey id) = true) : ∃ raw : AuditLog, raw.id = id ∧ P raw ∧
      store.get (getAuditLogKey id) = some (marshal raw) ∧
      (∀ k ∈ indexKeys raw, store.has k = true) ∧
      getAuditLog store id = .ok (some raw.coerced) := by
  obtain ⟨v, hv⟩ := Option.isSome_iff_exists.mp hid
  obtain ⟨raw, hraw, rfl, hP, hkeys⟩ := h.logs id v hv
  exact ⟨raw, hraw, hP, hv, hkeys, by simp [getAuditLog, hv, mustUnmarshal, Except.map]⟩

theorem has_of_stored {log : AuditLog} (h : Stored store log) :
    store.has (getAuditLogKey log.id) = true := by
  unfold Stored getAuditLog at h
  cases hget : store.get (getAuditLogKey log.id) with
  | none => simp [hget] at h
  | some v => simp [OrderedStore.has, hget]

theorem Stored.unique {log log' : AuditLog} (h : Stored store log) (h' : Stored store log')
    (hid : log.id = log'.id) : log = log' := by
  unfold Stored at h h'
  rw [hid] at h
  simpa using h.symm.trans h'

theorem Indexed.of_stored (h : Indexed P store) {log : AuditLog} (hlog : Stored store log) :
    ∃ raw : AuditLog, log = raw.coerced ∧ P raw ∧
      store.get (getAuditLogKey raw.id) = some (marshal raw) ∧
      ∀ k ∈ indexKeys raw, store.has k = true := by
  obtain ⟨raw, hid, hP, hget, hkeys, hread⟩ := h.exists_stored (has_of_stored hlog)
  have heq : log = raw.coerced := by
    have hsome := hlog.symm.trans hread
    simpa using hsome
  exact ⟨raw, heq, hP, hid ▸ hget, hkeys⟩

theorem Indexed.getAuditLog_eq_some (h : Indexed P store) {id : UInt64} {log : AuditLog} :
    getAuditLog store id = .ok (some log) ↔ log.id = id ∧ Stored store log := by
  constructor
  · intro hread
    have hhas : store.has (getAuditLogKey id) = true := by
      cases hget : store.get (getAuditLogKey id) with
      | none => simp [getAuditLog, hget] at hread
      | some v => simp [OrderedStore.has, hget]
    obtain ⟨raw, hid, -, -, -, hraw⟩ := h.exists_stored hhas
    obtain rfl : raw.coerced = log := by simpa using hraw.symm.trans hread
    have hid' : raw.coerced.id = id := hid
    exact ⟨hid', by rw [Stored, hid', hraw]⟩
  · rintro ⟨rfl, hlog⟩
    exact hlog

theorem Current.exists_stored (h : Current P store) {k : Bytes} (hk : IsIndexKey k)
    (hhas : store.has k = true) :
    ∃ raw : AuditLog, P raw ∧ k ∈ indexKeys raw ∧ Stored store raw.coerced := by
  obtain ⟨raw, hraw, hmem, hget⟩ := h k hk hhas
  have hget' : store.get (getAuditLogKey raw.coerced.id) = some (marshal raw) := hget
  exact ⟨raw, hraw, hmem, by simp [Stored, getAuditLog, hget', mustUnmarshal, Except.map]⟩

def readLog (r : Except Failure (Option AuditLog)) : Option AuditLog :=
  match r with
  | .ok (some log) => some log
  | _ => none

theorem readLog_eq_some {r : Except Failure (Option AuditLog)} {log : AuditLog} :
    readLog r = some log ↔ r = .ok (some log) := by
  unfold readLog
  split
  · simp
  · rename_i hne
    constructor
    · intro h
      cases h
    · intro h
      exact absurd h (hne log)

theorem collect_logs {entries : List (Bytes × StoredValue)}
    {read : Bytes × StoredValue → Except Failure (Option AuditLog)}
    (h : ∀ e ∈ entries, ∃ found, read e = .ok found) :
    (do
      let logs ← entries.mapM read
      return logs.filterMap id) = Except.ok (entries.filterMap fun e => readLog (read e)) := by
  have hmap : entries.mapM read = .ok (entries.map fun e => readLog (read e)) := by
    refine mapM_eq_map fun e he => ?_
    obtain ⟨found, hfound⟩ := h e he
    rw [hfound]
    cases found <;> rfl
  rw [hmap, except_ok_bind, List.filterMap_map]
  rfl

theorem bytesToUint64_uint64Bytes (id : UInt64) : bytesToUint64 (uint64Bytes id) = .ok id := by
  have htake : (uint64Bytes id).take 8 = uint64Bytes id := List.take_of_length_le (by simp)
  simp [bytesToUint64, htake, ofBigEndian_uint64Bytes]

end EnergyChain.Audit
