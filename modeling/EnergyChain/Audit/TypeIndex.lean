import EnergyChain.Audit.Indexes

/-!
# x/audit: the event type index

An index key ends in the eight bytes of an ID, which may hold zero bytes as
event types may. The query reads an ID from the front of whatever is left of a
key after the prefix, so it fails as soon as a single log is stored: asked for
the type of the first log followed by a zero byte, it finds seven bytes.
-/

namespace EnergyChain.Audit

variable (sha256 : Bytes → Bytes)

/-- The query for an event type returns the stored logs of that type, in
increasing ID order and so each once, and no other log. -/
def TypeIndexExact (store : KVStore) (eventType : Bytes) : Prop :=
  ∃ logs, getAuditLogsByType store eventType = .ok logs ∧
    logs.Pairwise (fun l l' => l.id < l'.id) ∧
    ∀ l, l ∈ logs ↔ getAuditLog store l.id = .ok (some l) ∧ l.eventType = eventType

/-- Every index key under the event type has an ID behind the prefix, and where a log is
stored under that ID, it is of the type and the key is its own. -/
def TypeKeysSound (store : KVStore) (eventType : Bytes) : Prop :=
  ∀ rest, store.has (getAuditByTypePrefixKey eventType ++ rest) = true →
    ∃ id, bytesToUint64 rest = .ok id ∧ ∀ l, Stored store l → l.id = id →
      l.eventType = eventType ∧ rest = uint64Bytes id

/-! ### The first log -/

theorem deliver_has {store : KVStore} {k : Bytes} (h : store.has k = true)
    (m : Context × MsgRecordAudit) : (deliver sha256 store m).1.has k = true := by
  rcases deliver_cases sha256 store m with ⟨e, he⟩ | hok
  · rwa [he]
  · rw [hok]
    exact OrderedStore.has_set (OrderedStore.has_set (OrderedStore.has_set (OrderedStore.has_set
      (OrderedStore.has_set h _ _) _ _) _ _) _ _) _ _

theorem has_recordAuditLog_typeKey (store : KVStore) (log : AuditLog) :
    (recordAuditLog store log).has (getAuditByTypeKey log.eventType log.id) = true := by
  apply OrderedStore.has_set
  simp [OrderedStore.has]

/-- The first message accepted after the default genesis is stored under ID 1,
and its index key stays. -/
theorem run_has_first (ms : List (Context × MsgRecordAudit))
    (hne : (deliver sha256).history (genesisStore defaultGenesis) ms ≠ []) :
    ∃ eventType, ((deliver sha256).run (genesisStore defaultGenesis) ms).has
      (getAuditByTypeKey eventType 1) = true := by
  obtain ⟨m, rest, hhist⟩ := List.exists_cons_of_ne_nil hne
  obtain ⟨pre, post, rfl, hpre, hacc⟩ :=
    (deliver sha256).exists_of_history_eq (hhist.trans (List.nil_append _).symm)
  have hstart := (deliver sha256).run_eq_of_history_nil
    (fun s m hrej => deliver_reject sha256 hrej) hpre
  rw [hstart] at hacc
  refine ⟨m.2.eventType, ?_⟩
  rw [Handler.run_append, hstart, Handler.run_cons]
  refine (deliver sha256).run_invariant (P := fun store =>
    store.has (getAuditByTypeKey m.2.eventType 1) = true) post ?_
    fun s hs m' _ => deliver_has sha256 hs m'
  rw [deliver_accept sha256 hacc]
  have hid : getNextID (genesisStore defaultGenesis) = 1 := by decide +kernel
  rw [hid]
  apply OrderedStore.has_set
  exact has_recordAuditLog_typeKey _ (m.2.log sha256 m.1 1)

/-! ### The query -/

/-- A query that returns has read an ID from every entry under the prefix. -/
theorem bytesToUint64_of_query {store : KVStore} {pre : Bytes} {logs : List AuditLog}
    (h : getAuditLogsByIndex store pre = .ok logs) {e : Bytes × StoredValue}
    (he : e ∈ store.prefixIterator pre) : ∃ id, bytesToUint64 (e.1.drop pre.length) = .ok id := by
  simp only [getAuditLogsByIndex, except_bind_ok_iff, mapM_ok_iff] at h
  obtain ⟨found, hall, -⟩ := h
  obtain ⟨i, hi, rfl⟩ := List.mem_iff_getElem.mp he
  have hat := hall.get hi (hall.length_eq ▸ hi)
  simp only [List.get_eq_getElem] at hat
  obtain ⟨id, hid, -⟩ := hat
  exact ⟨id, hid⟩

/-- With the first log in the store, the query for its type and a zero byte
more panics. -/
theorem query_panics {store : KVStore} {eventType : Bytes}
    (h : store.has (getAuditByTypeKey eventType 1) = true) (logs : List AuditLog) :
    getAuditLogsByType store (eventType ++ [0x00]) ≠ .ok logs := by
  intro hok
  obtain ⟨v, hv⟩ := Option.isSome_iff_exists.mp h
  have hid : uint64Bytes 1 = 0x00 :: [0, 0, 0, 0, 0, 0, 1] := by decide
  have hkey : getAuditByTypeKey eventType 1 =
      getAuditByTypePrefixKey (eventType ++ [0x00]) ++ [0, 0, 0, 0, 0, 0, 1] := by
    simp [getAuditByTypeKey, getAuditByTypePrefixKey, hid]
  rw [hkey] at hv
  obtain ⟨id, hread⟩ := bytesToUint64_of_query hok
    ((OrderedStore.mem_prefixIterator store).mpr ⟨List.prefix_append _ _, hv⟩)
  rw [List.drop_left] at hread
  simp [bytesToUint64] at hread

/-! ### One event type -/

section Scan

variable {P : AuditLog → Prop} {store : KVStore}

theorem getAuditLogsByType_eq (h : Indexed P store) {eventType : Bytes}
    (hids : ∀ rest, store.has (getAuditByTypePrefixKey eventType ++ rest) = true →
      ∃ id, bytesToUint64 rest = .ok id) :
    ∃ read : Bytes × StoredValue → Option AuditLog,
      getAuditLogsByType store eventType =
        .ok ((store.prefixIterator (getAuditByTypePrefixKey eventType)).filterMap read) ∧
      ∀ rest id v l, bytesToUint64 rest = .ok id →
        (read (getAuditByTypePrefixKey eventType ++ rest, v) = some l ↔
          l.id = id ∧ Stored store l) := by
  let read : Bytes × StoredValue → Except Failure (Option AuditLog) := fun e => do
    getAuditLog store (← bytesToUint64 (e.1.drop (getAuditByTypePrefixKey eventType).length))
  have hread : ∀ rest id v, bytesToUint64 rest = .ok id →
      read (getAuditByTypePrefixKey eventType ++ rest, v) = getAuditLog store id := by
    intro rest id v hid
    simp only [read, List.drop_left, hid, except_ok_bind]
  refine ⟨fun e => readLog (read e), collect_logs fun e he => ?_, fun rest id v l hid => ?_⟩
  · obtain ⟨k, v⟩ := e
    obtain ⟨⟨rest, rfl⟩, hv⟩ := (OrderedStore.mem_prefixIterator store).mp he
    obtain ⟨id, hid⟩ := hids rest (by simp [OrderedStore.has, hv])
    refine Exists.imp (fun _ hfound => (hread rest id v hid).trans hfound) ?_
    by_cases hstored : store.has (getAuditLogKey id) = true
    · obtain ⟨raw, -, -, -, -, hraw⟩ := h.exists_stored hstored
      exact ⟨_, hraw⟩
    · rw [OrderedStore.has, Bool.not_eq_true, Option.isSome_eq_false_iff,
        Option.isNone_iff_eq_none] at hstored
      exact ⟨none, by simp only [getAuditLog, hstored]⟩
  · rw [readLog_eq_some, hread rest id v hid, h.getAuditLog_eq_some]

theorem mem_prefixIterator_of_stored (h : Indexed (fun log => ValidUTF8 log.eventType) store)
    {l : AuditLog} (hl : Stored store l) :
    ∃ v, (getAuditByTypePrefixKey l.eventType ++ uint64Bytes l.id, v) ∈
      store.prefixIterator (getAuditByTypePrefixKey l.eventType) := by
  obtain ⟨raw, rfl, hutf8, -, hkeys⟩ := h.of_stored hl
  have heq : raw.coerced.eventType = raw.eventType := coerceUTF8_of_valid hutf8
  have hhas := hkeys (getAuditByTypeKey raw.eventType raw.id) (by simp [indexKeys])
  obtain ⟨v, hv⟩ := Option.isSome_iff_exists.mp hhas
  rw [heq]
  exact ⟨v, (OrderedStore.mem_prefixIterator store).mpr ⟨List.prefix_append _ _, hv⟩⟩

/-- An exact query has read an ID from every entry and no log twice. -/
theorem keysSound_of_exact (h : Indexed (fun log => ValidUTF8 log.eventType) store)
    {eventType : Bytes} (hexact : TypeIndexExact store eventType) :
    TypeKeysSound store eventType := by
  obtain ⟨logs, hok, hsorted, hmem⟩ := hexact
  have hentry : ∀ rest, store.has (getAuditByTypePrefixKey eventType ++ rest) = true →
      ∃ v, (getAuditByTypePrefixKey eventType ++ rest, v) ∈
        store.prefixIterator (getAuditByTypePrefixKey eventType) := by
    intro rest hhas
    obtain ⟨v, hv⟩ := Option.isSome_iff_exists.mp hhas
    exact ⟨v, (OrderedStore.mem_prefixIterator store).mpr ⟨List.prefix_append _ _, hv⟩⟩
  have hids : ∀ rest, store.has (getAuditByTypePrefixKey eventType ++ rest) = true →
      ∃ id, bytesToUint64 rest = .ok id := by
    intro rest hhas
    obtain ⟨v, he⟩ := hentry rest hhas
    simpa only [List.drop_left] using bytesToUint64_of_query hok he
  obtain ⟨read, hquery, hread⟩ := getAuditLogsByType_eq h hids
  obtain rfl := Except.ok.inj (hok.symm.trans hquery)
  intro rest hhas
  obtain ⟨id, hid⟩ := hids rest hhas
  refine ⟨id, hid, fun l hl hlid => ?_⟩
  obtain ⟨v, he⟩ := hentry rest hhas
  have hfound := (hread rest id v l hid).mpr ⟨hlid, hl⟩
  obtain ⟨-, rfl⟩ := (hmem l).mp (List.mem_filterMap.mpr ⟨_, he, hfound⟩)
  -- The log is read at its own entry as well.
  obtain ⟨v', he'⟩ := mem_prefixIterator_of_stored h hl
  have hown := (hread _ l.id v' l (bytesToUint64_uint64Bytes l.id)).mpr ⟨rfl, hl⟩
  have hnodup : ((store.prefixIterator (getAuditByTypePrefixKey l.eventType)).filterMap
      read).Nodup := by
    refine hsorted.imp ?_
    rintro a b hlt rfl
    simp at hlt
  have heq := OrderedStore.eq_of_nodup_filterMap hnodup he he' hfound hown
  have hrest := List.append_cancel_left (Prod.mk.inj heq).1
  exact ⟨rfl, by rw [hrest, hlid]⟩

theorem exact_of_keysSound (h : Indexed (fun log => ValidUTF8 log.eventType) store)
    {eventType : Bytes} (hsound : TypeKeysSound store eventType) :
    TypeIndexExact store eventType := by
  have hids : ∀ rest, store.has (getAuditByTypePrefixKey eventType ++ rest) = true →
      ∃ id, bytesToUint64 rest = .ok id := by
    intro rest hhas
    obtain ⟨id, hid, -⟩ := hsound rest hhas
    exact ⟨id, hid⟩
  obtain ⟨read, hquery, hread⟩ := getAuditLogsByType_eq h hids
  have hkey : ∀ e ∈ store.prefixIterator (getAuditByTypePrefixKey eventType), ∀ l,
      read e = some l → e.1 = getAuditByTypePrefixKey eventType ++ uint64Bytes l.id ∧
        Stored store l ∧ l.eventType = eventType := by
    rintro ⟨k, v⟩ he l hl
    obtain ⟨⟨rest, rfl⟩, hv⟩ := (OrderedStore.mem_prefixIterator store).mp he
    obtain ⟨id, hid, hown⟩ := hsound rest (by simp [OrderedStore.has, hv])
    obtain ⟨rfl, hstored⟩ := (hread rest id v l hid).mp hl
    obtain ⟨htype, hrest⟩ := hown l hstored rfl
    exact ⟨by rw [hrest], hstored, htype⟩
  refine ⟨_, hquery, ?_, fun l => ⟨fun hl => ?_, ?_⟩⟩
  · refine (OrderedStore.pairwise_filterMap_of_key (R := fun k k' => k < k')
      (store.prefixIterator_sorted _)
      (fun l : AuditLog => getAuditByTypePrefixKey eventType ++ uint64Bytes l.id)
      fun e he l hl => (hkey e he l hl).1).imp fun hlt => ?_
    rwa [append_lt_append_iff, uint64Bytes_lt_iff] at hlt
  · obtain ⟨e, he, hread'⟩ := List.mem_filterMap.mp hl
    exact (hkey e he l hread').2
  · rintro ⟨hl, rfl⟩
    obtain ⟨v, he⟩ := mem_prefixIterator_of_stored h hl
    exact List.mem_filterMap.mpr
      ⟨_, he, (hread _ l.id v l (bytesToUint64_uint64Bytes l.id)).mpr ⟨rfl, hl⟩⟩

/-- Without zero bytes in the event types no key lies under the prefix of another type. -/
theorem keysSound_of_current
    (hcurrent : Current (fun log => ValidUTF8 log.eventType ∧ (0 : Byte) ∉ log.eventType) store)
    {eventType : Bytes} (htype : (0 : Byte) ∉ eventType) : TypeKeysSound store eventType := by
  intro rest hhas
  obtain ⟨raw, ⟨hutf8, hzero⟩, hmem, hstored⟩ :=
    hcurrent.exists_stored (Or.inr (Or.inl rfl)) hhas
  have hkey : getAuditByTypePrefixKey eventType ++ rest = getAuditByTypeKey raw.eventType raw.id := by
    simp only [indexKeys, List.mem_cons, List.not_mem_nil, or_false] at hmem
    rcases hmem with hmem | hmem | hmem
    · simp [getAuditByTypePrefixKey, auditByTypeKey, getAuditByActorKey, auditByActorKey] at hmem
    · exact hmem
    · simp [getAuditByTypePrefixKey, auditByTypeKey, getAuditByTimeKey, auditByTimeKey] at hmem
  simp only [getAuditByTypePrefixKey, getAuditByTypeKey, List.append_assoc,
    List.append_cancel_left_eq, List.cons_append, List.nil_append] at hkey
  obtain ⟨rfl, rfl⟩ := (append_sep_inj htype hzero).mp hkey
  refine ⟨raw.id, bytesToUint64_uint64Bytes _, fun l hl hid => ?_⟩
  obtain rfl := hl.unique hstored hid
  exact ⟨coerceUTF8_of_valid hutf8, rfl⟩

end Scan

/-- The event type index is exact for all event types at once only as long as no message
has been accepted. For a single event type it is exact when its index keys are sound, as
they are where neither it nor a recorded type has a zero byte, up to the wrap of the counter. -/
theorem typeIndex_exact_iff (ms : List (Context × MsgRecordAudit)) :
    ((∀ t, TypeIndexExact ((deliver sha256).run (genesisStore defaultGenesis) ms) t) ↔
      (deliver sha256).history (genesisStore defaultGenesis) ms = []) ∧
    ((∀ m ∈ ms, ValidUTF8 m.2.eventType) → ∀ t,
      (TypeIndexExact ((deliver sha256).run (genesisStore defaultGenesis) ms) t ↔
        TypeKeysSound ((deliver sha256).run (genesisStore defaultGenesis) ms) t)) ∧
    (NoWrap sha256 defaultGenesis ms →
      (∀ m ∈ ms, ValidUTF8 m.2.eventType ∧ (0 : Byte) ∉ m.2.eventType) → ∀ t, (0 : Byte) ∉ t →
        TypeIndexExact ((deliver sha256).run (genesisStore defaultGenesis) ms) t) := by
  have hiff : ∀ ms : List (Context × MsgRecordAudit), (∀ m ∈ ms, ValidUTF8 m.2.eventType) → ∀ t,
      (TypeIndexExact (runFrom sha256 defaultGenesis ms) t ↔
        TypeKeysSound (runFrom sha256 defaultGenesis ms) t) := by
    intro ms hutf8 t
    have h : Indexed (fun log => ValidUTF8 log.eventType) (runFrom sha256 defaultGenesis ms) :=
      run_indexed sha256 fun m hm _ => hutf8 m hm
    exact ⟨keysSound_of_exact h, exact_of_keysSound h⟩
  refine ⟨⟨fun hexact => ?_, fun hnil t => ?_⟩, hiff ms, fun hwrap hplain t ht => ?_⟩
  · by_contra hne
    obtain ⟨eventType, hfirst⟩ := run_has_first sha256 ms hne
    obtain ⟨logs, hok, -, -⟩ := hexact (eventType ++ [0x00])
    exact query_panics hfirst logs hok
  · rw [(deliver sha256).run_eq_of_history_nil (fun s m hrej => deliver_reject sha256 hrej) hnil]
    refine (hiff [] (by simp) t).mpr fun rest hhas => ?_
    obtain ⟨log, hlog, -⟩ :=
      (genesisStore_indexed fun _ => False).keys _ (Or.inr (Or.inl rfl)) hhas
    cases hlog
  · refine (hiff ms (fun m hm => (hplain m hm).1) t).mpr (keysSound_of_current ?_ ht)
    exact run_current sha256 hwrap fun m hm _ => hplain m hm

/-- Of a login, a logout and a login the query for `login` answers the logins. -/
theorem typeIndex_exact_login :
    TypeIndexExact ((deliver sha256OfEmpty).run (genesisStore defaultGenesis)
      [auditOf (ascii "login"), auditOf (ascii "logout"), auditOf (ascii "login")]) (ascii "login") ∧
    TypeKeysSound ((deliver sha256OfEmpty).run (genesisStore defaultGenesis)
      [auditOf (ascii "login"), auditOf (ascii "logout"), auditOf (ascii "login")])
      (ascii "login") ∧
    (getAuditLogsByType ((deliver sha256OfEmpty).run (genesisStore defaultGenesis)
      [auditOf (ascii "login"), auditOf (ascii "logout"), auditOf (ascii "login")])
      (ascii "login")).map (List.map AuditLog.id) = .ok [1, 3] := by
  have hwrap : NoWrap sha256OfEmpty defaultGenesis
      [auditOf (ascii "login"), auditOf (ascii "logout"), auditOf (ascii "login")] := by
    unfold NoWrap
    decide +kernel
  have hexact := (typeIndex_exact_iff sha256OfEmpty _).2.2 hwrap (by decide +kernel) (ascii "login")
    (by decide +kernel)
  exact ⟨hexact, ((typeIndex_exact_iff sha256OfEmpty _).2.1 (by decide +kernel) _).mp hexact,
    by decide +kernel⟩

/-- After one message of type `login`, the query for `login\0` panics. -/
theorem typeIndex_not_exact :
    ¬ ∀ (sha256 : Bytes → Bytes) (ms : List (Context × MsgRecordAudit)),
      (∀ m ∈ ms, m.2.validateBasic sampleDecoder = .ok ()) →
      ∀ t, TypeIndexExact ((deliver sha256).run (genesisStore defaultGenesis) ms) t := by
  intro h
  have hbasic : ∀ m ∈ [auditOf (ascii "login")], m.2.validateBasic sampleDecoder = .ok () := by
    intro m hm
    rw [List.mem_singleton.mp hm]
    decide +kernel
  obtain ⟨logs, hok, -, -⟩ := h (fun _ => []) _ hbasic (ascii "login" ++ [0x00])
  refine query_panics ?_ logs hok
  decide +kernel

end EnergyChain.Audit
