import EnergyChain.Audit.TimeRange

/-!
# x/audit: the log query

A request has four optional filters and the query server looks at the first one
that is set: the actor, then the event type, then the times. The filters behind
it are not applied to what the index yields.
-/

namespace EnergyChain.Audit

variable (sha256 : Bytes → Bytes)

structure QueryAuditLogsRequest where
  actor : Bytes
  eventType : Bytes
  fromTimestamp : Int64
  toTimestamp : Int64

def queryAuditLogs (ctx : Context) (store : KVStore) (req : QueryAuditLogsRequest) :
    Except Failure (List AuditLog) :=
  if req.actor ≠ [] then getAuditLogsByActor store req.actor
  else if req.eventType ≠ [] then getAuditLogsByType store req.eventType
  else if req.fromTimestamp > 0 ∨ req.toTimestamp > 0 then
    let toTime := if req.toTimestamp = 0 then ctx.blockTime else req.toTimestamp
    getAuditLogsByTimeRange store req.fromTimestamp toTime
  else getAllLogs store

/-- The log satisfies every filter that is set. -/
structure QueryAuditLogsRequest.Matches (req : QueryAuditLogsRequest) (log : AuditLog) : Prop where
  actor : req.actor ≠ [] → log.actor = req.actor
  eventType : req.eventType ≠ [] → log.eventType = req.eventType
  fromTimestamp : req.fromTimestamp > 0 → req.fromTimestamp ≤ log.timestamp
  toTimestamp : req.toTimestamp > 0 → log.timestamp ≤ req.toTimestamp

/-- The query returns the stored logs that satisfy all filters, each once. -/
def FiltersExact (ctx : Context) (store : KVStore) (req : QueryAuditLogsRequest) : Prop :=
  ∃ logs, queryAuditLogs ctx store req = .ok logs ∧ logs.Nodup ∧
    ∀ l, l ∈ logs ↔ Stored store l ∧ req.Matches l

/-- The query is wrong about the log: it returns the log for its actor or its event type
although another filter excludes it, or it does not find it between times one of which is
negative, or up to a block time before it. -/
def Misjudges (ctx : Context) (req : QueryAuditLogsRequest) (log : AuditLog) : Prop :=
  if req.actor ≠ [] then log.actor = req.actor ∧ ¬ req.Matches log
  else if req.eventType ≠ [] then log.eventType = req.eventType ∧ ¬ req.Matches log
  else if req.fromTimestamp > 0 ∨ req.toTimestamp > 0 then
    req.Matches log ∧ (req.fromTimestamp < 0 ∨ req.toTimestamp = -1 ∨
      (req.toTimestamp = 0 ∧ ctx.blockTime < log.timestamp))
  else False

/-- Valid UTF-8 without zero bytes. -/
def PlainText (s : Bytes) : Prop := ValidUTF8 s ∧ (0 : Byte) ∉ s

instance (s : Bytes) : Decidable (PlainText s) := inferInstanceAs (Decidable (_ ∧ _))

/-- What is recorded from plain messages in blocks since 1970. -/
structure AuditLog.Plain (log : AuditLog) : Prop where
  actor : PlainText log.actor
  eventType : PlainText log.eventType
  timestamp : 0 ≤ log.timestamp

/-- The actor and the event type are plain, and the block is one since 1970. -/
structure PlainMsg (m : Context × MsgRecordAudit) : Prop where
  creator : PlainText m.2.creator
  eventType : PlainText m.2.eventType
  blockTime : 0 ≤ m.1.blockTime

/-! ### What the scans yield -/

section Scans

variable {P : AuditLog → Prop} {store : KVStore}

/-- A scan of an index finds the logs of a class, when the entries under its prefix are
those of the class. -/
theorem getAuditLogsByIndex_ok {pre : Bytes} {Q : AuditLog → Prop}
    (hscan : ∀ k, pre <+: k → store.has k = true →
      ∃ l, Stored store l ∧ Q l ∧ k = pre ++ uint64Bytes l.id)
    (hlisted : ∀ l, Stored store l → Q l → store.has (pre ++ uint64Bytes l.id) = true) :
    ∃ logs, getAuditLogsByIndex store pre = .ok logs ∧ logs.Nodup ∧
      ∀ l, l ∈ logs ↔ Stored store l ∧ Q l := by
  let read : Bytes × StoredValue → Except Failure (Option AuditLog) := fun e => do
    getAuditLog store (← bytesToUint64 (e.1.drop pre.length))
  have hread : ∀ id v, read (pre ++ uint64Bytes id, v) = getAuditLog store id := by
    intro id v
    simp only [read, List.drop_left, bytesToUint64_uint64Bytes, except_ok_bind]
  have hentry : ∀ e ∈ store.prefixIterator pre, ∃ l, Stored store l ∧ Q l ∧
      e.1 = pre ++ uint64Bytes l.id ∧ read e = .ok (some l) := by
    rintro ⟨k, v⟩ he
    obtain ⟨hpre, hget⟩ := (OrderedStore.mem_prefixIterator store).mp he
    obtain ⟨l, hl, hQ, rfl⟩ := hscan k hpre (by simp [OrderedStore.has, hget])
    exact ⟨l, hl, hQ, rfl, (hread l.id v).trans hl⟩
  refine ⟨_, collect_logs fun e he => ?_, ?_, fun l => ?_⟩
  · obtain ⟨l, -, -, -, hl⟩ := hentry e he
    exact ⟨some l, hl⟩
  · refine OrderedStore.nodup_filterMap_of_key (store.prefixIterator_keys_nodup pre)
      (fun l : AuditLog => pre ++ uint64Bytes l.id) fun e he l hl => ?_
    obtain ⟨l', -, -, hkey, hl'⟩ := hentry e he
    have hsome := hl'.symm.trans (readLog_eq_some.mp hl)
    obtain rfl : l' = l := by simpa using hsome
    exact hkey
  · constructor
    · intro hl
      obtain ⟨e, he, hsome⟩ := List.mem_filterMap.mp hl
      obtain ⟨l', hl', hQ, -, hread'⟩ := hentry e he
      have heq := hread'.symm.trans (readLog_eq_some.mp hsome)
      obtain rfl : l' = l := by simpa using heq
      exact ⟨hl', hQ⟩
    · rintro ⟨hl, hQ⟩
      obtain ⟨v, hv⟩ := Option.isSome_iff_exists.mp (hlisted l hl hQ)
      refine List.mem_filterMap.mpr ⟨(pre ++ uint64Bytes l.id, v), ?_, ?_⟩
      · exact (OrderedStore.mem_prefixIterator store).mpr ⟨List.prefix_append _ _, hv⟩
      · exact readLog_eq_some.mpr ((hread l.id v).trans hl)

theorem getAllLogs_ok (h : Indexed P store) : ∃ logs, getAllLogs store = .ok logs ∧ logs.Nodup ∧
    ∀ l, l ∈ logs ↔ Stored store l := by
  have hentry : ∀ e ∈ store.prefixIterator auditLogKey, ∃ l, Stored store l ∧
      e.1 = getAuditLogKey l.id ∧ e.2.unmarshal = some l := by
    rintro ⟨k, v⟩ he
    obtain ⟨hpre, hget⟩ := (OrderedStore.mem_prefixIterator store).mp he
    have hhead : k.head? = some 0x01 := by
      obtain ⟨rest, rfl⟩ := hpre
      rfl
    obtain ⟨id, rfl⟩ := h.table k hhead (by simp [OrderedStore.has, hget])
    obtain ⟨raw, rfl, rfl, -, -⟩ := h.logs id v hget
    have hget' : store.get (getAuditLogKey raw.coerced.id) = some (marshal raw) := hget
    exact ⟨raw.coerced, by simp [Stored, getAuditLog, hget', mustUnmarshal, Except.map], rfl,
      by simp⟩
  refine ⟨_, mapM_eq_filterMap (g := fun e => e.2.unmarshal) fun e he => ?_, ?_, fun l => ?_⟩
  · obtain ⟨l, -, -, hl⟩ := hentry e he
    exact ⟨l, by simp [mustUnmarshal, hl], hl⟩
  · refine OrderedStore.nodup_filterMap_of_key (store.prefixIterator_keys_nodup auditLogKey)
      (fun l : AuditLog => getAuditLogKey l.id) fun e he l hl => ?_
    obtain ⟨l', -, hkey, hl'⟩ := hentry e he
    obtain rfl := Option.some.inj (hl'.symm.trans hl)
    exact hkey
  · constructor
    · intro hl
      obtain ⟨e, he, hsome⟩ := List.mem_filterMap.mp hl
      obtain ⟨l', hl', -, hread⟩ := hentry e he
      obtain rfl := Option.some.inj (hread.symm.trans hsome)
      exact hl'
    · intro hl
      obtain ⟨v, hv⟩ := Option.isSome_iff_exists.mp (has_of_stored hl)
      have he : (getAuditLogKey l.id, v) ∈ store.prefixIterator auditLogKey :=
        (OrderedStore.mem_prefixIterator store).mpr ⟨List.prefix_append _ _, hv⟩
      obtain ⟨l', hl', hkey, hread⟩ := hentry _ he
      obtain rfl := hl'.unique hl (getAuditLogKey_inj.mp hkey).symm
      exact List.mem_filterMap.mpr ⟨_, he, hread⟩

end Scans

/-! ### Plain stores -/

section Plain

variable {store : KVStore} (h : Indexed AuditLog.Plain store)
  (hcurrent : Current AuditLog.Plain store)
include h hcurrent

theorem getAuditLogsByField_ok {tag : Byte} {f : AuditLog → Bytes} {value : Bytes}
    (htag : ∀ k : Bytes, k.head? = some tag → IsIndexKey k)
    (hkey : ∀ raw : AuditLog, ∀ k ∈ indexKeys raw, k.head? = some tag →
      k = [tag] ++ f raw ++ [0x00] ++ uint64Bytes raw.id)
    (hmem : ∀ raw : AuditLog, [tag] ++ f raw ++ [0x00] ++ uint64Bytes raw.id ∈ indexKeys raw)
    (hplain : ∀ raw : AuditLog, raw.Plain → (0 : Byte) ∉ f raw ∧ f raw.coerced = f raw)
    (hvalue : (0 : Byte) ∉ value) :
    ∃ logs, getAuditLogsByIndex store ([tag] ++ value ++ [0x00]) = .ok logs ∧ logs.Nodup ∧
      ∀ l, l ∈ logs ↔ Stored store l ∧ f l = value := by
  refine getAuditLogsByIndex_ok (fun k hpre hhas => ?_) fun l hl hfield => ?_
  · have hhead : k.head? = some tag := by
      obtain ⟨rest, rfl⟩ := hpre
      rfl
    obtain ⟨raw, hraw, hmem', hl⟩ := hcurrent.exists_stored (htag k hhead) hhas
    have hk := hkey raw k hmem' hhead
    obtain ⟨rest, hrest⟩ := hpre
    rw [hk] at hrest
    simp only [List.append_assoc, List.append_cancel_left_eq, List.cons_append, List.cons.injEq,
      true_and] at hrest
    obtain ⟨rfl, rfl⟩ := (append_sep_inj hvalue (hplain raw hraw).1).mp hrest
    exact ⟨raw.coerced, hl, (hplain raw hraw).2, hk⟩
  · obtain ⟨raw, rfl, hraw, -, hkeys⟩ := h.of_stored hl
    rw [← hfield, (hplain raw hraw).2]
    exact hkeys _ (hmem raw)

theorem getAuditLogsByActor_ok {actor : Bytes} (hactor : (0 : Byte) ∉ actor) :
    ∃ logs, getAuditLogsByActor store actor = .ok logs ∧ logs.Nodup ∧
      ∀ l, l ∈ logs ↔ Stored store l ∧ l.actor = actor := by
  refine getAuditLogsByField_ok h hcurrent (f := AuditLog.actor) (fun _ hhead => Or.inl hhead)
    (fun raw k hk hhead => ?_) (fun raw => List.mem_cons_self)
    (fun raw hraw => ⟨hraw.actor.2, coerceUTF8_of_valid hraw.actor.1⟩) hactor
  simp only [indexKeys, List.mem_cons, List.not_mem_nil, or_false] at hk
  rcases hk with rfl | rfl | rfl
  · rfl
  · simp [getAuditByTypeKey, auditByTypeKey] at hhead
  · simp [getAuditByTimeKey, auditByTimeKey] at hhead

theorem getAuditLogsByType_ok {eventType : Bytes} (htype : (0 : Byte) ∉ eventType) :
    ∃ logs, getAuditLogsByType store eventType = .ok logs ∧ logs.Nodup ∧
      ∀ l, l ∈ logs ↔ Stored store l ∧ l.eventType = eventType := by
  refine getAuditLogsByField_ok h hcurrent (f := AuditLog.eventType)
    (fun _ hhead => Or.inr (Or.inl hhead)) (fun raw k hk hhead => ?_)
    (fun raw => List.mem_cons_of_mem _ List.mem_cons_self)
    (fun raw hraw => ⟨hraw.eventType.2, coerceUTF8_of_valid hraw.eventType.1⟩) htype
  simp only [indexKeys, List.mem_cons, List.not_mem_nil, or_false] at hk
  rcases hk with rfl | rfl | rfl
  · simp [getAuditByActorKey, auditByActorKey] at hhead
  · rfl
  · simp [getAuditByTimeKey, auditByTimeKey] at hhead

theorem getAuditLogsByTimeRange_ok (fromTime toTime : Int64) :
    ∃ logs, getAuditLogsByTimeRange store fromTime toTime = .ok logs ∧ logs.Nodup ∧
      ∀ l, l ∈ logs ↔ Stored store l ∧
        0 ≤ fromTime ∧ fromTime ≤ l.timestamp ∧ (l.timestamp ≤ toTime ∨ toTime < -1) := by
  have htimes := h.mono fun log hlog => hlog.timestamp
  by_cases hfrom : 0 ≤ fromTime
  · obtain ⟨logs, hok, hsorted, hmem⟩ := getAuditLogsByTimeRange_of_current htimes hfrom
      fun t id _ (_ : t ≤ toTime ∨ toTime < -1) hhas =>
        current_timeKey (hcurrent.mono fun log hlog => hlog.timestamp) hhas
    refine ⟨logs, hok, hsorted.imp ?_, by simpa [hfrom] using hmem⟩
    rintro l l' hlt rfl
    simp at hlt
  · exact ⟨[], getAuditLogsByTimeRange_negative htimes hfrom toTime, List.nodup_nil, by
      simp [hfrom]⟩

omit h hcurrent in
theorem filtersExact_iff_of_ok {ctx : Context} {req : QueryAuditLogsRequest} {Q : AuditLog → Prop}
    (hok : ∃ logs, queryAuditLogs ctx store req = .ok logs ∧ logs.Nodup ∧
      ∀ l, l ∈ logs ↔ Stored store l ∧ Q l) :
    FiltersExact ctx store req ↔ ∀ l, Stored store l → (Q l ↔ req.Matches l) := by
  obtain ⟨logs, hquery, hnodup, hmem⟩ := hok
  constructor
  · rintro ⟨logs', hquery', -, hmem'⟩ l hl
    obtain rfl := Except.ok.inj (hquery.symm.trans hquery')
    have hiff := (hmem l).symm.trans (hmem' l)
    simpa [hl] using hiff
  · intro hiff
    exact ⟨logs, hquery, hnodup, fun l => (hmem l).trans (and_congr_right fun hl => hiff l hl)⟩

/-- On a plain store the query is exact when it misjudges no log. -/
theorem filtersExact_iff_of_plain {ctx : Context} {req : QueryAuditLogsRequest}
    (htime : 0 ≤ ctx.blockTime) (hactor : (0 : Byte) ∉ req.actor)
    (htype : (0 : Byte) ∉ req.eventType) :
    FiltersExact ctx store req ↔ ∀ l, Stored store l → ¬ Misjudges ctx req l := by
  by_cases hactorSet : req.actor ≠ []
  · have hok := getAuditLogsByActor_ok h hcurrent hactor
    rw [filtersExact_iff_of_ok (Q := fun l => l.actor = req.actor)
      (by simpa only [queryAuditLogs, if_pos hactorSet] using hok)]
    refine forall₂_congr fun l _ => ?_
    have hmatches : req.Matches l → l.actor = req.actor := fun hm => hm.actor hactorSet
    simp only [Misjudges, if_pos hactorSet]
    tauto
  by_cases htypeSet : req.eventType ≠ []
  · have hok := getAuditLogsByType_ok h hcurrent htype
    rw [filtersExact_iff_of_ok (Q := fun l => l.eventType = req.eventType)
      (by simpa only [queryAuditLogs, if_neg hactorSet, if_pos htypeSet] using hok)]
    refine forall₂_congr fun l _ => ?_
    have hmatches : req.Matches l → l.eventType = req.eventType := fun hm => hm.eventType htypeSet
    simp only [Misjudges, if_neg hactorSet, if_pos htypeSet]
    tauto
  have hmatches : ∀ l : AuditLog, req.Matches l ↔
      (req.fromTimestamp > 0 → req.fromTimestamp ≤ l.timestamp) ∧
        (req.toTimestamp > 0 → l.timestamp ≤ req.toTimestamp) := fun l =>
    ⟨fun hm => ⟨hm.fromTimestamp, hm.toTimestamp⟩, fun hm =>
      ⟨fun hset => absurd hset hactorSet, fun hset => absurd hset htypeSet, hm.1, hm.2⟩⟩
  by_cases htimeSet : req.fromTimestamp > 0 ∨ req.toTimestamp > 0
  · have hok := getAuditLogsByTimeRange_ok h hcurrent req.fromTimestamp
      (if req.toTimestamp = 0 then ctx.blockTime else req.toTimestamp)
    rw [filtersExact_iff_of_ok (by
      simpa only [queryAuditLogs, if_neg hactorSet, if_neg htypeSet, if_pos htimeSet] using hok)]
    refine forall₂_congr fun l hl => ?_
    have hpos := (timeKey_of_stored (h.mono fun log hlog => hlog.timestamp) hl).1
    simp only [Misjudges, if_neg hactorSet, if_neg htypeSet, if_pos htimeSet, hmatches]
    have hneg : (-1 : Int64).toInt = -1 := rfl
    simp only [Int64.le_iff_toInt_le, Int64.lt_iff_toInt_lt, gt_iff_lt, Int64.toInt_zero, hneg,
      ← Int64.toInt_inj] at *
    split_ifs <;> omega
  · rw [filtersExact_iff_of_ok (Q := fun _ => True) (by
      simpa [queryAuditLogs, hactorSet, htypeSet, htimeSet] using getAllLogs_ok h)]
    rw [not_or] at htimeSet
    simp [Misjudges, hactorSet, htypeSet, htimeSet, hmatches]

end Plain

/-! ### Runs from the default genesis -/

theorem PlainMsg.log_plain {m : Context × MsgRecordAudit} (h : PlainMsg m) (id : UInt64) :
    (m.2.log sha256 m.1 id).Plain := ⟨h.creator, h.eventType, h.blockTime⟩

theorem filtersExact_genesisStore (ctx : Context) (req : QueryAuditLogsRequest) :
    FiltersExact ctx (genesisStore defaultGenesis) req := by
  have hindexed := genesisStore_indexed fun _ => False
  have hnone : ∀ pre : Bytes, ¬ pre <+: paramsKey → getAuditLogsByIndex
      (genesisStore defaultGenesis) pre = .ok [] := by
    intro pre hpre
    have hnil : (genesisStore defaultGenesis).prefixIterator pre = [] := by
      refine List.eq_nil_iff_forall_not_mem.mpr ?_
      rintro ⟨k, v⟩ he
      obtain ⟨hk, hget⟩ := (OrderedStore.mem_prefixIterator _).mp he
      rw [genesisStore_default_get (fun heq => hpre (heq ▸ hk))] at hget
      cases hget
    simp only [getAuditLogsByIndex, hnil]
    rfl
  have hstored : ∀ l, ¬ Stored (genesisStore defaultGenesis) l := by
    intro l hl
    obtain ⟨raw, -, hraw, -⟩ := hindexed.of_stored hl
    exact hraw
  have htimes : ∀ fromTime toTime, getAuditLogsByTimeRange (genesisStore defaultGenesis) fromTime
      toTime = .ok [] := by
    intro fromTime toTime
    have hcurrent : Current AuditLog.Plain (genesisStore defaultGenesis) := by
      intro k hk hhas
      obtain ⟨raw, hraw, -⟩ := hindexed.keys k hk hhas
      exact hraw.elim
    obtain ⟨logs, hquery, -, hmem⟩ := getAuditLogsByTimeRange_ok
      (hindexed.mono fun _ hraw => hraw.elim) hcurrent fromTime toTime
    have hnil : logs = [] := List.eq_nil_iff_forall_not_mem.mpr fun l hl =>
      hstored l ((hmem l).mp hl).1
    rw [hquery, hnil]
  have hall : getAllLogs (genesisStore defaultGenesis) = .ok [] := by
    obtain ⟨logs, hquery, -, hmem⟩ := getAllLogs_ok hindexed
    have hnil : logs = [] := List.eq_nil_iff_forall_not_mem.mpr fun l hl =>
      hstored l ((hmem l).mp hl)
    rw [hquery, hnil]
  have hok : queryAuditLogs ctx (genesisStore defaultGenesis) req = .ok [] := by
    unfold queryAuditLogs
    split_ifs
    · exact hnone _ (by simp [getAuditByActorPrefixKey, auditByActorKey, paramsKey])
    · exact hnone _ (by simp [getAuditByTypePrefixKey, auditByTypeKey, paramsKey])
    · exact htimes _ _
    · exact htimes _ _
    · exact hall
  exact ⟨[], hok, List.nodup_nil, fun l => by simp [hstored l]⟩

/-- Every request is answered exactly only as long as no message has been accepted. One
without zero bytes is answered exactly, on a chain of plain messages up to the wrap of the
counter, when the query misjudges no stored log. -/
theorem filtersExact_iff (ms : List (Context × MsgRecordAudit)) :
    ((∀ ctx req, FiltersExact ctx (runFrom sha256 defaultGenesis ms) req) ↔
      (deliver sha256).history (genesisStore defaultGenesis) ms = []) ∧
    (NoWrap sha256 defaultGenesis ms → (∀ m ∈ ms, PlainMsg m) → ∀ ctx req, 0 ≤ ctx.blockTime →
      (0 : Byte) ∉ req.actor → (0 : Byte) ∉ req.eventType →
      (FiltersExact ctx (runFrom sha256 defaultGenesis ms) req ↔
        ∀ l, Stored (runFrom sha256 defaultGenesis ms) l → ¬ Misjudges ctx req l)) := by
  constructor
  · constructor
    · intro hexact
      by_contra hne
      obtain ⟨eventType, hfirst⟩ := run_has_first sha256 ms hne
      obtain ⟨logs, hok, -, -⟩ := hexact { blockHeight := 0, blockTime := 0, txBytes := [] }
        { actor := [], eventType := eventType ++ [0x00], fromTimestamp := 0, toTimestamp := 0 }
      refine query_panics hfirst logs ?_
      simpa [queryAuditLogs, runFrom] using hok
    · intro hnil ctx req
      rw [runFrom, (deliver sha256).run_eq_of_history_nil
        (fun s m hrej => deliver_reject sha256 hrej) hnil]
      exact filtersExact_genesisStore ctx req
  · intro hwrap hplain ctx req htime hactor htype
    have hlogs : ∀ m ∈ ms, ∀ id, (m.2.log sha256 m.1 id).Plain := fun m hm id =>
      (hplain m hm).log_plain sha256 id
    exact filtersExact_iff_of_plain (run_indexed sha256 hlogs) (run_current sha256 hwrap hlogs)
      htime hactor htype

/-- A request for the logs of an actor and an event type. -/
def logsOf (actor eventType : Bytes) : QueryAuditLogsRequest :=
  { actor, eventType, fromTimestamp := 0, toTimestamp := 0 }

/-- Logins of one actor and a logout of another. -/
def twoActors : List (Context × MsgRecordAudit) :=
  let logout := auditOf (ascii "logout")
  [auditOf (ascii "login"), (logout.1, { logout.2 with creator := otherAddress }),
    auditOf (ascii "login")]

/-- The query for the logins of the first actor finds two of the three logs. -/
theorem filtersExact_logins :
    FiltersExact (auditOf (ascii "login")).1 (runFrom sha256OfEmpty defaultGenesis twoActors)
      (logsOf sampleAddress (ascii "login")) ∧
    (queryAuditLogs (auditOf (ascii "login")).1 (runFrom sha256OfEmpty defaultGenesis twoActors)
      (logsOf sampleAddress (ascii "login"))).map (List.map AuditLog.id) = .ok [1, 3] := by
  have hwrap : NoWrap sha256OfEmpty defaultGenesis twoActors := by
    unfold NoWrap
    decide +kernel
  have hplain : ∀ m ∈ twoActors, PlainMsg m := by
    intro m hm
    have hall : ∀ m ∈ twoActors,
        PlainText m.2.creator ∧ PlainText m.2.eventType ∧ 0 ≤ m.1.blockTime := by decide +kernel
    obtain ⟨hcreator, htype, htime⟩ := hall m hm
    exact ⟨hcreator, htype, htime⟩
  refine ⟨((filtersExact_iff sha256OfEmpty _).2 hwrap hplain _ _ (by decide) (by decide +kernel)
    (by decide +kernel)).mpr fun l hl hmis => ?_, by decide +kernel⟩
  have hindexed : Indexed
      (fun log => log.coerced.actor = sampleAddress → log.coerced.eventType = ascii "login")
      (runFrom sha256OfEmpty defaultGenesis twoActors) := by
    refine run_indexed sha256OfEmpty fun m hm id => ?_
    have hall : ∀ m ∈ twoActors, coerceUTF8 m.2.creator = sampleAddress →
        coerceUTF8 m.2.eventType = ascii "login" := by decide +kernel
    exact hall m hm
  obtain ⟨raw, rfl, htype, -⟩ := hindexed.of_stored hl
  rw [Misjudges, if_pos (by decide +kernel)] at hmis
  refine hmis.2 ⟨fun _ => hmis.1, fun _ => htype hmis.1, fun hset => ?_, fun hset => ?_⟩
  · exact absurd hset (by decide)
  · exact absurd hset (by decide)

/-- Asked for the logouts of the actor, the query returns the login. -/
theorem filtersExact_ignores_eventType :
    ¬ ∀ (sha256 : Bytes → Bytes) (ms : List (Context × MsgRecordAudit)) (ctx : Context)
      (req : QueryAuditLogsRequest), FiltersExact ctx (runFrom sha256 defaultGenesis ms) req := by
  intro h
  obtain ⟨logs, hok, -, hmem⟩ := h sha256OfEmpty [auditOf (ascii "login")]
    (auditOf (ascii "login")).1 (logsOf sampleAddress (ascii "logout"))
  have hlogin : queryAuditLogs (auditOf (ascii "login")).1
      (runFrom sha256OfEmpty defaultGenesis [auditOf (ascii "login")])
      (logsOf sampleAddress (ascii "logout")) =
        .ok [(auditOf (ascii "login")).2.log sha256OfEmpty (auditOf (ascii "login")).1 1] := by
    decide +kernel
  obtain rfl := Except.ok.inj (hok.symm.trans hlogin)
  have hmatches := ((hmem _).mp List.mem_cons_self).2.eventType (by decide)
  exact absurd hmatches (by decide +kernel)

end EnergyChain.Audit
