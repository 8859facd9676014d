import EnergyChain.Audit.TypeIndex

/-!
# x/audit: the time index

The keys of the time index are ordered as the pairs of timestamp and ID, as long
as timestamps are not negative. A negative lower bound counts as a time after
all others, and the query then finds nothing.
-/

namespace EnergyChain.Audit

variable (sha256 : Bytes → Bytes)

/-- The query returns the stored logs of the range, each once and ordered by time
and ID. -/
def TimeRangeExact (store : KVStore) (fromTime toTime : Int64) : Prop :=
  ∃ logs, getAuditLogsByTimeRange store fromTime toTime = .ok logs ∧
    logs.Pairwise (fun l l' => l.timestamp < l'.timestamp ∨
      (l.timestamp = l'.timestamp ∧ l.id < l'.id)) ∧
    ∀ l, l ∈ logs ↔ Stored store l ∧ fromTime ≤ l.timestamp ∧ l.timestamp ≤ toTime

/-- From a time that is not negative on, every index entry of the range names a log of
its time; from a negative time on, no log is in the range. -/
def TimeRangeSafe (store : KVStore) (fromTime toTime : Int64) : Prop :=
  if 0 ≤ fromTime then
    ∀ t id, fromTime ≤ t → t ≤ toTime → store.has (getAuditByTimeKey t id) = true →
      ∃ l, l.id = id ∧ Stored store l ∧ l.timestamp = t
  else ∀ l, Stored store l → toTime < l.timestamp

/-! ### Keys between the bounds -/

theorem getAuditByTimeKey_between_iff {t fromTime toTime : Int64} (hpos : 0 ≤ t) (id : UInt64) :
    getAuditByTimePrefixKey fromTime ≤ getAuditByTimeKey t id ∧
        getAuditByTimeKey t id < getAuditByTimeRangeEndKey toTime ↔
      0 ≤ fromTime ∧ fromTime ≤ t ∧ (t ≤ toTime ∨ toTime < -1) := by
  have hkey : ∀ u : UInt64, auditByTimeKey ++ uint64Bytes t.toUInt64 ++ uint64Bytes id <
      auditByTimeKey ++ uint64Bytes u ↔ t.toUInt64 < u := fun u => by
    rw [append_lt_iff_of_length_eq (by simp), append_lt_append_iff, uint64Bytes_lt_iff]
  rw [← toUInt64_range_iff hpos, ← not_lt, getAuditByTimePrefixKey, getAuditByTimeKey,
    getAuditByTimeRangeEndKey, hkey, hkey, UInt64.not_lt]

theorem getAuditByTimeKey_lt_iff {t t' : Int64} (hpos : 0 ≤ t) (hpos' : 0 ≤ t') {id id' : UInt64} :
    getAuditByTimeKey t id < getAuditByTimeKey t' id' ↔ t < t' ∨ (t = t' ∧ id < id') := by
  rw [getAuditByTimeKey, getAuditByTimeKey, List.append_assoc, List.append_assoc,
    append_lt_append_iff, append_lt_append_iff_of_length_eq (by simp), uint64Bytes_lt_iff,
    uint64Bytes_lt_iff, toUInt64_lt_iff hpos hpos', uint64Bytes_toUInt64_inj]

theorem getAuditByTimeKey_inj {t t' : Int64} {id id' : UInt64} :
    getAuditByTimeKey t id = getAuditByTimeKey t' id' ↔ t = t' ∧ id = id' := by
  constructor
  · intro h
    simp only [getAuditByTimeKey, List.append_assoc, List.append_cancel_left_eq] at h
    obtain ⟨htime, hid⟩ := List.append_inj h (by simp)
    exact ⟨uint64Bytes_toUInt64_inj.mp htime, uint64Bytes_injective hid⟩
  · rintro ⟨rfl, rfl⟩
    rfl

section Scan

variable {store : KVStore} (h : Indexed (fun log => 0 ≤ log.timestamp) store)
include h

theorem exists_timeKey {k : Bytes} (hhead : k.head? = some 0x05) (hhas : store.has k = true) :
    ∃ t id, 0 ≤ t ∧ k = getAuditByTimeKey t id ∧ store.has (getAuditLogKey id) = true := by
  obtain ⟨raw, hpos, hmem, hstored⟩ := h.keys k (Or.inr (Or.inr hhead)) hhas
  refine ⟨raw.timestamp, raw.id, hpos, ?_, hstored⟩
  simp only [indexKeys, List.mem_cons, List.not_mem_nil, or_false] at hmem
  rcases hmem with rfl | rfl | rfl
  · simp [getAuditByActorKey, auditByActorKey] at hhead
  · simp [getAuditByTypeKey, auditByTypeKey] at hhead
  · rfl

theorem of_has_timeKey {t : Int64} {id : UInt64} (hhas : store.has (getAuditByTimeKey t id) = true) :
    0 ≤ t ∧ store.has (getAuditLogKey id) = true := by
  obtain ⟨t', id', hpos, hkey, hstored⟩ := exists_timeKey h rfl hhas
  obtain ⟨rfl, rfl⟩ := getAuditByTimeKey_inj.mp hkey
  exact ⟨hpos, hstored⟩

/-- A log is stored under a time that is not negative and listed under it. -/
theorem timeKey_of_stored {l : AuditLog} (hl : Stored store l) :
    0 ≤ l.timestamp ∧ store.has (getAuditByTimeKey l.timestamp l.id) = true := by
  obtain ⟨raw, rfl, hpos, -, hkeys⟩ := h.of_stored hl
  exact ⟨hpos, hkeys _ (by simp [indexKeys, AuditLog.coerced])⟩

theorem mem_timeScan {fromTime toTime : Int64} {e : Bytes × StoredValue} :
    e ∈ store.iterator (getAuditByTimePrefixKey fromTime) (getAuditByTimeRangeEndKey toTime) ↔
      ∃ t id, 0 ≤ t ∧ (0 ≤ fromTime ∧ fromTime ≤ t ∧ (t ≤ toTime ∨ toTime < -1)) ∧
        e.1 = getAuditByTimeKey t id ∧ store.get e.1 = some e.2 ∧
        store.has (getAuditLogKey id) = true := by
  obtain ⟨k, v⟩ := e
  rw [OrderedStore.mem_iterator]
  constructor
  · rintro ⟨hbetween, hget⟩
    have hprefix : auditByTimeKey <+: k := prefix_of_between hbetween.1 hbetween.2
    have hhead : k.head? = some 0x05 := by
      obtain ⟨rest, rfl⟩ := hprefix
      rfl
    obtain ⟨t, id, hpos, rfl, hstored⟩ := exists_timeKey h hhead (by simp [OrderedStore.has, hget])
    exact ⟨t, id, hpos, (getAuditByTimeKey_between_iff hpos id).mp hbetween, rfl, hget, hstored⟩
  · rintro ⟨t, id, hpos, hbetween, rfl, hget, -⟩
    exact ⟨(getAuditByTimeKey_between_iff hpos id).mpr hbetween, hget⟩

theorem getAuditLogsByTimeRange_eq (fromTime toTime : Int64) :
    ∃ read : Bytes × StoredValue → Option AuditLog,
      getAuditLogsByTimeRange store fromTime toTime = .ok ((store.iterator
        (getAuditByTimePrefixKey fromTime) (getAuditByTimeRangeEndKey toTime)).filterMap read) ∧
      ∀ t id v l, read (getAuditByTimeKey t id, v) = some l ↔ l.id = id ∧ Stored store l := by
  let read : Bytes × StoredValue → Except Failure (Option AuditLog) := fun e =>
    if e.1.length < auditByTimeKey.length + 16 then pure none
    else do getAuditLog store (← bytesToUint64 (e.1.drop (auditByTimeKey.length + 8)))
  have hread : ∀ t id v, read (getAuditByTimeKey t id, v) = getAuditLog store id := by
    intro t id v
    have hlength : ¬ (getAuditByTimeKey t id).length < auditByTimeKey.length + 16 := by
      simp [getAuditByTimeKey]
    have hdrop : (getAuditByTimeKey t id).drop (auditByTimeKey.length + 8) = uint64Bytes id :=
      List.drop_left' (by simp)
    simp only [read, if_neg hlength, hdrop, bytesToUint64_uint64Bytes, except_ok_bind]
  refine ⟨fun e => readLog (read e), collect_logs fun e he => ?_, fun t id v l => ?_⟩
  · obtain ⟨t, id, -, -, hkey, -, hstored⟩ := (mem_timeScan h).mp he
    obtain ⟨raw, -, -, -, -, hraw⟩ := h.exists_stored hstored
    obtain ⟨k, v⟩ := e
    obtain rfl : k = getAuditByTimeKey t id := hkey
    exact ⟨some raw.coerced, (hread t id v).trans hraw⟩
  · rw [readLog_eq_some, hread, h.getAuditLog_eq_some]

theorem getAuditLogsByTimeRange_negative {fromTime : Int64} (hneg : ¬ 0 ≤ fromTime)
    (toTime : Int64) : getAuditLogsByTimeRange store fromTime toTime = .ok [] := by
  obtain ⟨read, hquery, -⟩ := getAuditLogsByTimeRange_eq h fromTime toTime
  have hnil : store.iterator (getAuditByTimePrefixKey fromTime)
      (getAuditByTimeRangeEndKey toTime) = [] := by
    refine List.eq_nil_iff_forall_not_mem.mpr fun e he => ?_
    obtain ⟨t, id, -, hbetween, -⟩ := (mem_timeScan h).mp he
    exact hneg hbetween.1
  rw [hquery, hnil]
  rfl

/-- Where every entry names a log of its time, the query returns what lies between
the bounds. -/
theorem getAuditLogsByTimeRange_of_current {fromTime toTime : Int64} (hfrom : 0 ≤ fromTime)
    (hcurrent : ∀ t id, fromTime ≤ t → (t ≤ toTime ∨ toTime < -1) →
      store.has (getAuditByTimeKey t id) = true →
      ∃ l, l.id = id ∧ Stored store l ∧ l.timestamp = t) :
    ∃ logs, getAuditLogsByTimeRange store fromTime toTime = .ok logs ∧
      logs.Pairwise (fun l l' => l.timestamp < l'.timestamp ∨
        (l.timestamp = l'.timestamp ∧ l.id < l'.id)) ∧
      ∀ l, l ∈ logs ↔
        Stored store l ∧ fromTime ≤ l.timestamp ∧ (l.timestamp ≤ toTime ∨ toTime < -1) := by
  obtain ⟨read, hquery, hread⟩ := getAuditLogsByTimeRange_eq h fromTime toTime
  -- The key of an entry can be read off its log.
  have hkey : ∀ e ∈ store.iterator (getAuditByTimePrefixKey fromTime)
      (getAuditByTimeRangeEndKey toTime), ∀ l, read e = some l →
      e.1 = getAuditByTimeKey l.timestamp l.id ∧ 0 ≤ l.timestamp ∧ Stored store l ∧
        fromTime ≤ l.timestamp ∧ (l.timestamp ≤ toTime ∨ toTime < -1) := by
    rintro ⟨k, v⟩ he l hl
    obtain ⟨t, id, hpos, hbetween, rfl, hget, -⟩ := (mem_timeScan h).mp he
    obtain ⟨rfl, hstored⟩ := (hread t id v l).mp hl
    obtain ⟨l', hid, hl', rfl⟩ := hcurrent t l.id hbetween.2.1 hbetween.2.2
      (by simp [OrderedStore.has, hget])
    obtain rfl := hl'.unique hstored hid
    exact ⟨rfl, hpos, hstored, hbetween.2⟩
  refine ⟨_, hquery, ?_, fun l => ⟨fun hl => ?_, fun hl => ?_⟩⟩
  · refine List.pairwise_filterMap.mpr ((store.iterator_sorted _ _).imp_of_mem ?_)
    intro e e' he he' hlt l hl l' hl'
    obtain ⟨heq, hpos, -⟩ := hkey e he l hl
    obtain ⟨heq', hpos', -⟩ := hkey e' he' l' hl'
    rw [heq, heq'] at hlt
    exact (getAuditByTimeKey_lt_iff hpos hpos').mp hlt
  · obtain ⟨e, he, hread'⟩ := List.mem_filterMap.mp hl
    exact (hkey e he l hread').2.2
  · obtain ⟨hpos, hhas⟩ := timeKey_of_stored h hl.1
    obtain ⟨v, hv⟩ := Option.isSome_iff_exists.mp hhas
    refine List.mem_filterMap.mpr ⟨(getAuditByTimeKey l.timestamp l.id, v), ?_, ?_⟩
    · exact (mem_timeScan h).mpr ⟨_, _, hpos, ⟨hfrom, hl.2⟩, rfl, hv, has_of_stored hl.1⟩
    · exact (hread _ _ _ _).mpr ⟨rfl, hl.1⟩

omit h in
theorem current_timeKey (hcurrent : Current (fun log => 0 ≤ log.timestamp) store) {t : Int64}
    {id : UInt64} (hhas : store.has (getAuditByTimeKey t id) = true) :
    ∃ l, l.id = id ∧ Stored store l ∧ l.timestamp = t := by
  obtain ⟨raw, -, hmem, hl⟩ := hcurrent.exists_stored (Or.inr (Or.inr rfl)) hhas
  simp only [indexKeys, List.mem_cons, List.not_mem_nil, or_false] at hmem
  rcases hmem with hkey | hkey | hkey
  · simp [getAuditByTimeKey, auditByTimeKey, getAuditByActorKey, auditByActorKey] at hkey
  · simp [getAuditByTimeKey, auditByTimeKey, getAuditByTypeKey, auditByTypeKey] at hkey
  · obtain ⟨rfl, rfl⟩ := getAuditByTimeKey_inj.mp hkey
    exact ⟨raw.coerced, rfl, hl, rfl⟩

/-- An exact query reads no log twice, so no entry of its range names a log of
another time. -/
theorem current_of_timeRangeExact {fromTime toTime : Int64} (hfrom : 0 ≤ fromTime)
    (hexact : TimeRangeExact store fromTime toTime) (t : Int64) (id : UInt64)
    (hge : fromTime ≤ t) (hle : t ≤ toTime)
    (hhas : store.has (getAuditByTimeKey t id) = true) :
    ∃ l, l.id = id ∧ Stored store l ∧ l.timestamp = t := by
  obtain ⟨logs, hok, hsorted, hmem⟩ := hexact
  obtain ⟨read, hquery, hread⟩ := getAuditLogsByTimeRange_eq h fromTime toTime
  obtain rfl := Except.ok.inj (hok.symm.trans hquery)
  obtain ⟨raw, hid, -, -, -, hraw⟩ := h.exists_stored (of_has_timeKey h hhas).2
  obtain ⟨hid', hl⟩ := (h.getAuditLog_eq_some).mp hraw
  refine ⟨raw.coerced, hid', hl, ?_⟩
  -- The entry of the log's own time is read as well.
  have hentry : ∀ t', store.has (getAuditByTimeKey t' id) = true → fromTime ≤ t' → t' ≤ toTime →
      ∃ v, (getAuditByTimeKey t' id, v) ∈ store.iterator (getAuditByTimePrefixKey fromTime)
        (getAuditByTimeRangeEndKey toTime) ∧ read (getAuditByTimeKey t' id, v) = some raw.coerced := by
    intro t' hhas' hge' hle'
    obtain ⟨hpos, hstored⟩ := of_has_timeKey h hhas'
    obtain ⟨v, hv⟩ := Option.isSome_iff_exists.mp hhas'
    exact ⟨v, (mem_timeScan h).mpr ⟨t', id, hpos, ⟨hfrom, hge', Or.inl hle'⟩, rfl, hv, hstored⟩,
      (hread _ _ _ _).mpr ⟨hid', hl⟩⟩
  obtain ⟨v, he, hv⟩ := hentry t hhas hge hle
  obtain ⟨-, hge', hle'⟩ := (hmem _).mp (List.mem_filterMap.mpr ⟨_, he, hv⟩)
  obtain ⟨v', he', hv'⟩ := hentry raw.coerced.timestamp
    (hid' ▸ (timeKey_of_stored h hl).2) hge' hle'
  have hnodup : ((store.iterator (getAuditByTimePrefixKey fromTime)
      (getAuditByTimeRangeEndKey toTime)).filterMap read).Nodup := by
    refine hsorted.imp ?_
    rintro l l' hlt rfl
    simp at hlt
  have heq := OrderedStore.eq_of_nodup_filterMap hnodup he' he hv' hv
  exact (getAuditByTimeKey_inj.mp (Prod.mk.inj heq).1).1

end Scan

/-! ### Runs from the default genesis -/

theorem run_indexed_times {ms : List (Context × MsgRecordAudit)}
    (htimes : ∀ m ∈ ms, 0 ≤ m.1.blockTime) :
    Indexed (fun log => 0 ≤ log.timestamp) (runFrom sha256 defaultGenesis ms) :=
  run_indexed sha256 fun m hm _ => htimes m hm

/-- Entries that name a log of another time take a wrap of the ID counter. -/
theorem timeIndex_current {ms : List (Context × MsgRecordAudit)}
    (hwrap : NoWrap sha256 defaultGenesis ms) (htimes : ∀ m ∈ ms, 0 ≤ m.1.blockTime) {t : Int64}
    {id : UInt64} (hhas : (runFrom sha256 defaultGenesis ms).has (getAuditByTimeKey t id) = true) :
    ∃ l, l.id = id ∧ Stored (runFrom sha256 defaultGenesis ms) l ∧ l.timestamp = t := by
  exact current_timeKey (run_current sha256 hwrap fun m hm _ => htimes m hm) hhas

/-- The range query over the time index is exact exactly when the range is safe. -/
theorem timeRange_exact_iff (ms : List (Context × MsgRecordAudit))
    (htimes : ∀ m ∈ ms, 0 ≤ m.1.blockTime) {fromTime toTime : Int64} (hle : fromTime ≤ toTime) :
    TimeRangeExact (runFrom sha256 defaultGenesis ms) fromTime toTime ↔
      TimeRangeSafe (runFrom sha256 defaultGenesis ms) fromTime toTime := by
  have h := run_indexed_times sha256 htimes
  unfold TimeRangeSafe
  split_ifs with hfrom
  · have hto : ¬ toTime < -1 := by
      have hneg : (-1 : Int64).toInt = -1 := rfl
      simp only [Int64.le_iff_toInt_le, Int64.lt_iff_toInt_lt, Int64.toInt_zero, hneg] at hfrom hle ⊢
      omega
    constructor
    · exact current_of_timeRangeExact h hfrom
    · intro hsafe
      have hquery := getAuditLogsByTimeRange_of_current h hfrom
        fun t id hge (hle' : t ≤ toTime ∨ toTime < -1) hhas =>
          hsafe t id hge (hle'.resolve_right hto) hhas
      simpa [TimeRangeExact, hto] using hquery
  · have hnone := getAuditLogsByTimeRange_negative h hfrom toTime
    constructor
    · rintro ⟨logs, hok, -, hmem⟩ l hl
      obtain rfl := Except.ok.inj (hok.symm.trans hnone)
      by_contra hnot
      have hge : fromTime ≤ l.timestamp := Int64.le_of_lt
        (Int64.lt_of_lt_of_le (Int64.not_le.mp hfrom) (timeKey_of_stored h hl).1)
      simpa using (hmem l).mpr ⟨hl, hge, Int64.not_lt.mp hnot⟩
    · intro hsafe
      refine ⟨[], hnone, List.Pairwise.nil, fun l => ?_⟩
      simp only [List.not_mem_nil, false_iff]
      rintro ⟨hl, -, hle'⟩
      exact absurd (hsafe l hl) (Int64.not_lt.mpr hle')


/-- Logins in blocks of the given times. -/
def loginsAt (blockTimes : List Int64) : List (Context × MsgRecordAudit) :=
  blockTimes.map fun blockTime =>
    ({ (auditOf (ascii "login")).1 with blockTime }, (auditOf (ascii "login")).2)

/-- The range has the second and the fourth of the logs. -/
theorem timeRange_exact_logins :
    TimeRangeExact (runFrom sha256OfEmpty defaultGenesis
      (loginsAt [1700000000, 1700000100, 1800000000, 1700000050])) 1700000050 1700000200 ∧
    (getAuditLogsByTimeRange (runFrom sha256OfEmpty defaultGenesis
      (loginsAt [1700000000, 1700000100, 1800000000, 1700000050])) 1700000050 1700000200).map
        (List.map AuditLog.id) = .ok [4, 2] := by
  have hwrap : NoWrap sha256OfEmpty defaultGenesis
      (loginsAt [1700000000, 1700000100, 1800000000, 1700000050]) := by
    unfold NoWrap
    decide +kernel
  have htimes : ∀ m ∈ loginsAt [1700000000, 1700000100, 1800000000, 1700000050],
      0 ≤ m.1.blockTime := by decide
  refine ⟨(timeRange_exact_iff sha256OfEmpty _ htimes (by decide)).mpr ?_, by decide +kernel⟩
  rw [TimeRangeSafe, if_pos (by decide)]
  exact fun t id _ _ hhas => timeIndex_current sha256OfEmpty hwrap htimes hhas

/-- Asked from a negative time on, the query does not find the log. -/
theorem timeRange_negative_from :
    ¬ ∀ (sha256 : Bytes → Bytes) (ms : List (Context × MsgRecordAudit)),
      (∀ m ∈ ms, 0 ≤ m.1.blockTime) → ∀ fromTime toTime : Int64, fromTime ≤ toTime →
        TimeRangeExact (runFrom sha256 defaultGenesis ms) fromTime toTime := by
  intro h
  obtain ⟨logs, hok, -, hmem⟩ := h sha256OfEmpty [auditOf (ascii "login")] (by decide) (-1)
    1700000000 (by decide)
  have hnone : getAuditLogsByTimeRange (runFrom sha256OfEmpty defaultGenesis
      [auditOf (ascii "login")]) (-1) 1700000000 = .ok [] := by decide +kernel
  obtain rfl := Except.ok.inj (hok.symm.trans hnone)
  have hlog := (hmem ((auditOf (ascii "login")).2.log sha256OfEmpty (auditOf (ascii "login")).1 1)).mpr
    ⟨by unfold Stored; decide +kernel, by decide +kernel, by decide +kernel⟩
  cases hlog

end EnergyChain.Audit
