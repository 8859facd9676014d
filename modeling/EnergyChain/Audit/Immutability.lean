import EnergyChain.Audit.MsgServer

/-!
# x/audit: immutability of the logs

The counter of the genesis state decides under which IDs new logs are stored.
They are unused exactly when the counter is at least every ID of the genesis
logs, which `GenesisState.Validate` does not check.
-/

namespace EnergyChain.Audit

variable (sha256 : Bytes → Bytes)

def runFrom (gs : GenesisState) (ms : List (Context × MsgRecordAudit)) : KVStore :=
  (deliver sha256).run (genesisStore gs) ms

def acceptedFrom (gs : GenesisState) (ms : List (Context × MsgRecordAudit)) : ℕ :=
  ((deliver sha256).history (genesisStore gs) ms).length

/-- The `uint64` counter does not wrap during the run. -/
def NoWrap (gs : GenesisState) (ms : List (Context × MsgRecordAudit)) : Prop :=
  gs.counter.toNat + acceptedFrom sha256 gs ms < 2 ^ 64

/-- Every log ever stored, from genesis on, is returned unchanged, and every
accepted message creates its log under an ID not used before. -/
structure Immutable (gs : GenesisState) : Prop where
  imported : ∀ log ∈ gs.logs, getAuditLog (genesisStore gs) log.id = .ok (some log.coerced)
  unchanged : ∀ pre post, NoWrap sha256 gs (pre ++ post) → ∀ id log,
    getAuditLog (runFrom sha256 gs pre) id = .ok (some log) →
    getAuditLog (runFrom sha256 gs (pre ++ post)) id = .ok (some log)
  fresh : ∀ pre m, NoWrap sha256 gs (pre ++ [m]) →
    (deliver sha256).Accepts (runFrom sha256 gs pre) m →
    ∃ id, getAuditLog (runFrom sha256 gs pre) id = .ok none ∧
      getAuditLog (runFrom sha256 gs (pre ++ [m])) id =
        .ok (some (m.2.log sha256 m.1 id).coerced)

/-! ### One more message -/

section Step

variable (gs : GenesisState) (ms : List (Context × MsgRecordAudit)) (m : Context × MsgRecordAudit)

theorem runFrom_append (ms' : List (Context × MsgRecordAudit)) :
    runFrom sha256 gs (ms ++ ms') = (deliver sha256).run (runFrom sha256 gs ms) ms' :=
  (deliver sha256).run_append _ _ _

theorem runFrom_accept (h : (deliver sha256).Accepts (runFrom sha256 gs ms) m) :
    runFrom sha256 gs (ms ++ [m]) = incrementCounter (recordAuditLog (runFrom sha256 gs ms)
        (m.2.log sha256 m.1 (getNextID (runFrom sha256 gs ms)))) (getNextID (runFrom sha256 gs ms)) ∧
      acceptedFrom sha256 gs (ms ++ [m]) = acceptedFrom sha256 gs ms + 1 := by
  constructor
  · rw [runFrom_append]
    exact deliver_accept sha256 h
  · have hstep : (deliver sha256).history (runFrom sha256 gs ms) [m] = [m] := by
      simp [Handler.history, h]
    rw [acceptedFrom, Handler.history_append, List.length_append, ← runFrom, hstep]
    rfl

/-- The lookup after an accepted message: its log under the next ID, all else as before. -/
theorem getAuditLog_runFrom_accept (h : (deliver sha256).Accepts (runFrom sha256 gs ms) m)
    (id : UInt64) :
    getAuditLog (runFrom sha256 gs (ms ++ [m])) id =
      if id = getNextID (runFrom sha256 gs ms) then
        .ok (some (m.2.log sha256 m.1 (getNextID (runFrom sha256 gs ms))).coerced)
      else getAuditLog (runFrom sha256 gs ms) id := by
  rw [(runFrom_accept sha256 gs ms m h).1, getAuditLog_congr (get_incrementCounter_logKey _ _ _),
    getAuditLog_recordAuditLog, MsgRecordAudit.log_id]

theorem runFrom_reject (h : ¬ (deliver sha256).Accepts (runFrom sha256 gs ms) m) :
    runFrom sha256 gs (ms ++ [m]) = runFrom sha256 gs ms ∧
      acceptedFrom sha256 gs (ms ++ [m]) = acceptedFrom sha256 gs ms := by
  constructor
  · rw [runFrom_append]
    exact deliver_reject sha256 h
  · have hstep : (deliver sha256).history (runFrom sha256 gs ms) [m] = [] := by
      simp [Handler.history, h]
    rw [acceptedFrom, Handler.history_append, List.length_append, ← runFrom, hstep]
    rfl

end Step

/-! ### The genesis state -/

section Genesis

theorem foldl_recordAuditLog_get_of_head (logs : List AuditLog) (store : KVStore) {k : Bytes}
    (h : k.head? = some 0x04 ∨ k.head? = some 0x06) :
    (logs.foldl recordAuditLog store).get k = store.get k := by
  induction logs generalizing store with
  | nil => rfl
  | cons log rest ih => rw [List.foldl_cons, ih, get_recordAuditLog_of_head store log h]

theorem foldl_recordAuditLog_get_of_ne (logs : List AuditLog) (store : KVStore) {id : UInt64}
    (h : ∀ log ∈ logs, id ≠ log.id) :
    (logs.foldl recordAuditLog store).get (getAuditLogKey id) = store.get (getAuditLogKey id) := by
  induction logs generalizing store with
  | nil => rfl
  | cons log rest ih =>
    rw [List.foldl_cons, ih _ fun l hl => h l (List.mem_cons_of_mem _ hl),
      get_recordAuditLog_logKey, if_neg (h log List.mem_cons_self)]

theorem foldl_recordAuditLog_get_of_mem {logs : List AuditLog}
    (hnodup : (logs.map AuditLog.id).Nodup) (store : KVStore) {log : AuditLog} (h : log ∈ logs) :
    (logs.foldl recordAuditLog store).get (getAuditLogKey log.id) = some (marshal log) := by
  induction logs generalizing store with
  | nil => cases h
  | cons hd rest ih =>
    obtain ⟨hhd, hrest⟩ := List.nodup_cons.mp hnodup
    rw [List.foldl_cons]
    rcases List.mem_cons.mp h with rfl | h
    · rw [foldl_recordAuditLog_get_of_ne rest _ fun l hl heq =>
        hhd (List.mem_map.mpr ⟨l, hl, heq.symm⟩), get_recordAuditLog_logKey, if_pos rfl]
    · exact ih hrest _ h

variable (gs : GenesisState)

theorem genesisStore_get_logKey (id : UInt64) : (genesisStore gs).get (getAuditLogKey id) =
    (gs.logs.foldl recordAuditLog (setParams OrderedStore.empty gs.params)).get
      (getAuditLogKey id) := by
  unfold genesisStore initGenesis
  split_ifs
  · exact get_incrementCounter_logKey _ _ _
  · rfl

theorem genesisStore_get_of_notMem {id : UInt64} (h : ∀ log ∈ gs.logs, id ≠ log.id) :
    (genesisStore gs).get (getAuditLogKey id) = none := by
  rw [genesisStore_get_logKey, foldl_recordAuditLog_get_of_ne _ _ h]
  exact OrderedStore.get_set_of_ne _ (fun hk => by
    simp [getAuditLogKey, auditLogKey, paramsKey] at hk) _

theorem getParams_genesisStore : getParams (genesisStore gs) = .ok gs.params.coerced := by
  have hget : (genesisStore gs).get paramsKey = some (marshal gs.params) := by
    have hfold : (gs.logs.foldl recordAuditLog (setParams OrderedStore.empty gs.params)).get
        paramsKey = some (marshal gs.params) := by
      rw [foldl_recordAuditLog_get_of_head _ _ (Or.inr rfl)]
      exact OrderedStore.get_set_self _ _ _
    unfold genesisStore initGenesis
    split_ifs
    · exact (get_incrementCounter_params _ _).trans hfold
    · exact hfold
  simp [getParams, hget, mustUnmarshal]

theorem getNextID_genesisStore : getNextID (genesisStore gs) = gs.counter + 1 := by
  unfold genesisStore initGenesis
  split_ifs with h
  · exact getNextID_incrementCounter _ _
  · have hzero : gs.counter = 0 := by
      by_contra hne
      exact h (UInt64.pos_iff_ne_zero.mpr hne)
    have hnone : (gs.logs.foldl recordAuditLog (setParams OrderedStore.empty gs.params)).get
        auditCounterKey = none := by
      rw [foldl_recordAuditLog_get_of_head _ _ (Or.inl rfl)]
      exact OrderedStore.get_set_of_ne _ (by decide) _
    simp [getNextID, hnone, hzero]

end Genesis

/-! ### Runs -/

section Runs

variable (gs : GenesisState)

theorem runFrom_params_nextID (ms : List (Context × MsgRecordAudit)) :
    getParams (runFrom sha256 gs ms) = .ok gs.params.coerced ∧
      getNextID (runFrom sha256 gs ms) =
        gs.counter + UInt64.ofNat (acceptedFrom sha256 gs ms + 1) := by
  induction ms using List.reverseRecOn with
  | nil => exact ⟨getParams_genesisStore gs, getNextID_genesisStore gs⟩
  | append_singleton ms m ih =>
    by_cases hacc : (deliver sha256).Accepts (runFrom sha256 gs ms) m
    · obtain ⟨hrun, hcount⟩ := runFrom_accept sha256 gs ms m hacc
      rw [hrun, hcount]
      constructor
      · rw [← ih.1]
        simp only [getParams, get_incrementCounter_params,
          get_recordAuditLog_of_head _ _ (Or.inr rfl : paramsKey.head? = _ ∨ _)]
      · rw [getNextID_incrementCounter, ih.2, UInt64.add_assoc, ← UInt64.ofNat_one,
          ← UInt64.ofNat_add]
    · obtain ⟨hrun, hcount⟩ := runFrom_reject sha256 gs ms m hacc
      rw [hrun, hcount]
      exact ih

theorem runFrom_ids_le (hids : ∀ log ∈ gs.logs, log.id ≤ gs.counter)
    (ms : List (Context × MsgRecordAudit)) (hwrap : NoWrap sha256 gs ms) {id : UInt64}
    (h : (runFrom sha256 gs ms).get (getAuditLogKey id) ≠ none) :
    id.toNat ≤ gs.counter.toNat + acceptedFrom sha256 gs ms := by
  induction ms using List.reverseRecOn with
  | nil =>
    by_contra hlt
    refine h (genesisStore_get_of_notMem gs fun log hlog heq => hlt ?_)
    exact heq ▸ UInt64.le_iff_toNat_le.mp (hids log hlog)
  | append_singleton ms m ih =>
    by_cases hacc : (deliver sha256).Accepts (runFrom sha256 gs ms) m
    · obtain ⟨hrun, hcount⟩ := runFrom_accept sha256 gs ms m hacc
      rw [NoWrap, hcount] at hwrap
      rw [hrun, get_incrementCounter_logKey, get_recordAuditLog_logKey] at h
      rw [hcount]
      split_ifs at h with hnew
      · rw [hnew, MsgRecordAudit.log_id, (runFrom_params_nextID sha256 gs ms).2, UInt64.toNat_add,
          UInt64.toNat_ofNat']
        omega
      · have hle := ih (by rw [NoWrap]; omega) h
        omega
    · obtain ⟨hrun, hcount⟩ := runFrom_reject sha256 gs ms m hacc
      rw [NoWrap, hcount] at hwrap
      rw [hrun] at h
      rw [hcount]
      exact ih hwrap h

theorem nextID_unused (hids : ∀ log ∈ gs.logs, log.id ≤ gs.counter)
    {ms : List (Context × MsgRecordAudit)} {m : Context × MsgRecordAudit}
    (hwrap : NoWrap sha256 gs (ms ++ [m]))
    (hacc : (deliver sha256).Accepts (runFrom sha256 gs ms) m) :
    (runFrom sha256 gs ms).get (getAuditLogKey (getNextID (runFrom sha256 gs ms))) = none := by
  rw [NoWrap, (runFrom_accept sha256 gs ms m hacc).2] at hwrap
  by_contra hused
  have hle := runFrom_ids_le sha256 gs hids ms (by rw [NoWrap]; omega) hused
  rw [(runFrom_params_nextID sha256 gs ms).2, UInt64.toNat_add, UInt64.toNat_ofNat'] at hle
  omega

theorem noWrap_of_append {pre post : List (Context × MsgRecordAudit)}
    (h : NoWrap sha256 gs (pre ++ post)) : NoWrap sha256 gs pre := by
  rw [NoWrap, acceptedFrom, Handler.history_append, List.length_append] at h
  rw [NoWrap, acceptedFrom]
  omega

/-- A message that is accepted in every state of every run from the genesis
state: it comes from an allowed auditor and has no data. -/
def acceptableMsg : Context × MsgRecordAudit :=
  ({ blockHeight := 0, blockTime := 0, txBytes := [] },
    { creator := gs.params.coerced.allowedAuditors.headD sampleAddress
      eventType := ascii "custom", target := [], action := ascii "record", data := [] })

theorem accepts_acceptableMsg (ms : List (Context × MsgRecordAudit)) :
    (deliver sha256).Accepts (runFrom sha256 gs ms) (acceptableMsg gs) := by
  have hparams := (runFrom_params_nextID sha256 gs ms).1
  have hallowed : isAllowedAuditor (runFrom sha256 gs ms) (acceptableMsg gs).2.creator =
      .ok true := by
    simp only [isAllowedAuditor, hparams, acceptableMsg, bind, Except.bind, pure, Except.pure]
    generalize gs.params.coerced.allowedAuditors = auditors
    cases auditors with
    | nil => rfl
    | cons a rest => simp
  have hsize : ¬ (gs.params.coerced.maxDataSize > 0 ∧
      ((acceptableMsg gs).2.data.length : ℤ) > gs.params.coerced.maxDataSize.toInt) := by
    rintro ⟨hpos, hlen⟩
    have hpos' := Int64.lt_iff_toInt_lt.mp hpos
    simp only [Int64.toInt_zero, acceptableMsg, List.length_nil, Nat.cast_zero] at hpos' hlen
    omega
  refine ⟨(), ?_⟩
  simp only [deliver, recordAuditMsg, hallowed, hparams]
  rw [if_neg hsize]

theorem acceptedFrom_replicate (n : ℕ) :
    acceptedFrom sha256 gs (List.replicate n (acceptableMsg gs)) = n := by
  induction n with
  | zero => rfl
  | succ n ih =>
    rw [List.replicate_succ',
      (runFrom_accept sha256 gs _ _ (accepts_acceptableMsg sha256 gs _)).2, ih]

end Runs

/-- The log of an ID above the counter would be overwritten by the message that draws it. -/
theorem Immutable.id_le {gs : GenesisState} (h : Immutable sha256 gs) {log : AuditLog}
    (hlog : log ∈ gs.logs) : log.id ≤ gs.counter := by
  by_contra hgt
  have hlt : gs.counter.toNat < log.id.toNat :=
    UInt64.lt_iff_toNat_lt.mp (UInt64.not_le.mp hgt)
  have hmax := log.id.toNat_lt
  -- Count up to the message that draws the ID of the log.
  let n := log.id.toNat - gs.counter.toNat - 1
  have hnext : getNextID (runFrom sha256 gs (List.replicate n (acceptableMsg gs))) = log.id := by
    rw [(runFrom_params_nextID sha256 gs _).2, acceptedFrom_replicate]
    refine UInt64.toNat_inj.mp ?_
    rw [UInt64.toNat_add, UInt64.toNat_ofNat']
    omega
  have hacc := accepts_acceptableMsg sha256 gs (List.replicate n (acceptableMsg gs))
  have hcount := (runFrom_accept sha256 gs _ _ hacc).2
  rw [acceptedFrom_replicate] at hcount
  have hwrap : NoWrap sha256 gs (List.replicate n (acceptableMsg gs) ++ [acceptableMsg gs]) := by
    rw [NoWrap, hcount]
    omega
  obtain ⟨id, hnone, hsome⟩ := h.fresh _ _ hwrap hacc
  have hstored := h.unchanged [] _ (noWrap_of_append sha256 gs hwrap) log.id _
    (h.imported log hlog)
  rw [List.nil_append] at hstored
  by_cases hid : id = log.id
  · rw [hid, hstored] at hnone
    cases hnone
  · rw [getAuditLog_runFrom_accept sha256 gs _ _ hacc, hnext, if_neg hid, hnone] at hsome
    cases hsome

/-- A log stored once is returned after every later message, if the IDs drawn are unused. -/
theorem getAuditLog_runFrom_append {gs : GenesisState}
    (hids : ∀ log ∈ gs.logs, log.id ≤ gs.counter) {pre post : List (Context × MsgRecordAudit)}
    (hwrap : NoWrap sha256 gs (pre ++ post)) {id : UInt64} {log : AuditLog}
    (hlog : getAuditLog (runFrom sha256 gs pre) id = .ok (some log)) :
    getAuditLog (runFrom sha256 gs (pre ++ post)) id = .ok (some log) := by
  induction post using List.reverseRecOn with
  | nil => rwa [List.append_nil]
  | append_singleton post m ih =>
    rw [← List.append_assoc] at hwrap ⊢
    have hkept := ih (noWrap_of_append sha256 gs hwrap)
    by_cases hacc : (deliver sha256).Accepts (runFrom sha256 gs (pre ++ post)) m
    · have hunused := nextID_unused sha256 gs hids hwrap hacc
      have hne : id ≠ getNextID (runFrom sha256 gs (pre ++ post)) := by
        rintro rfl
        simp [getAuditLog, hunused] at hkept
      rw [getAuditLog_runFrom_accept sha256 gs _ m hacc, if_neg hne]
      exact hkept
    · rw [(runFrom_reject sha256 gs _ m hacc).1]
      exact hkept

/-- Logs are immutable from an admissible genesis state exactly when its
counter has reached the IDs of its logs. -/
theorem immutable_iff {gs : GenesisState} (hvalid : gs.validate = .ok ()) :
    Immutable sha256 gs ↔ ∀ log ∈ gs.logs, log.id ≤ gs.counter := by
  constructor
  · intro h log hlog
    exact h.id_le sha256 hlog
  · intro hids
    constructor
    · intro log hlog
      have hget := foldl_recordAuditLog_get_of_mem (GenesisState.nodup_of_validate hvalid)
        (setParams OrderedStore.empty gs.params) hlog
      rw [← genesisStore_get_logKey] at hget
      simp [getAuditLog, hget, mustUnmarshal, Except.map]
    · intro pre post hwrap id log hlog
      exact getAuditLog_runFrom_append sha256 hids hwrap hlog
    · intro pre m hwrap hacc
      refine ⟨getNextID (runFrom sha256 gs pre), ?_, ?_⟩
      · simp [getAuditLog, nextID_unused sha256 gs hids hwrap hacc]
      · rw [getAuditLog_runFrom_accept sha256 gs pre m hacc, if_pos rfl]

/-- A genesis state with one log, under ID 1, and the given counter. -/
def oneLogGenesis (counter : UInt64) : GenesisState :=
  { logs := [{ id := 1, eventType := ascii "custom", actor := sampleAddress, target := []
               action := ascii "deploy", data := [], blockHeight := 3, timestamp := 1700000000
               txHash := [] }]
    counter, params := defaultParams }

/-- SHA-256 of the empty string. -/
def sha256OfEmpty : Bytes → Bytes := fun bs =>
  if bs = [] then bigEndian 32 0xe3b0c44298fc1c149afbf4c8996fb92427ae41e4649b934ca495991b7852b855
  else List.replicate 32 0

/-- A message of the event type. -/
def auditOf (eventType : Bytes) : Context × MsgRecordAudit :=
  ({ blockHeight := 7, blockTime := 1700000000, txBytes := [] },
    { creator := sampleAddress, eventType, target := [], action := ascii "update", data := [] })

theorem immutable_oneLogGenesis : Immutable sha256OfEmpty (oneLogGenesis 1) := by
  have hvalid : (oneLogGenesis 1).validate = .ok () := by decide +kernel
  exact (immutable_iff sha256OfEmpty hvalid).mpr (by decide)

/-- With the counter left at zero the first message replaces the log. -/
theorem genesis_log_replaced :
    ¬ ∀ gs : GenesisState, gs.validate = .ok () → Immutable sha256OfEmpty gs := by
  intro h
  have himmutable := h (oneLogGenesis 0) (by decide +kernel)
  have hwrap : NoWrap sha256OfEmpty (oneLogGenesis 0) ([] ++ [acceptableMsg (oneLogGenesis 0)]) := by
    unfold NoWrap
    decide +kernel
  have hbefore := himmutable.imported _ List.mem_cons_self
  have hafter := himmutable.unchanged [] _ hwrap _ _ hbefore
  exact absurd hafter (by decide +kernel)

end EnergyChain.Audit
