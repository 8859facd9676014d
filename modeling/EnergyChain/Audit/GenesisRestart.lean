import EnergyChain.Audit.Immutability
import EnergyChain.Foundations.Fallible

/-!
# x/audit: export and import of the genesis state

A store reached from the default genesis is the import of the logs of its
accepted messages and their number: nothing but these and the parameters
determines it. The export returns what was imported, the logs in the order of
their IDs, so importing the export again gives the store back. The counter is
imported unless it is zero; a counter that has wrapped to zero is lost.
-/

namespace EnergyChain.Audit

variable (sha256 : Bytes → Bytes)

/-! ### Strings that JSON keeps -/

def AuditLog.ValidStrings (l : AuditLog) : Prop :=
  ValidUTF8 l.eventType ∧ ValidUTF8 l.actor ∧ ValidUTF8 l.target ∧ ValidUTF8 l.action ∧
    ValidUTF8 l.data ∧ ValidUTF8 l.txHash

instance (l : AuditLog) : Decidable l.ValidStrings := inferInstanceAs (Decidable (_ ∧ _))

def GenesisState.ValidStrings (gs : GenesisState) : Prop :=
  (∀ log ∈ gs.logs, log.ValidStrings) ∧ ∀ auditor ∈ gs.params.allowedAuditors, ValidUTF8 auditor

instance (gs : GenesisState) : Decidable gs.ValidStrings := inferInstanceAs (Decidable (_ ∧ _))

def MsgRecordAudit.ValidStrings (msg : MsgRecordAudit) : Prop :=
  ValidUTF8 msg.creator ∧ ValidUTF8 msg.eventType ∧ ValidUTF8 msg.target ∧
    ValidUTF8 msg.action ∧ ValidUTF8 msg.data

instance (msg : MsgRecordAudit) : Decidable msg.ValidStrings := inferInstanceAs (Decidable (_ ∧ _))

theorem AuditLog.coerced_of_valid {l : AuditLog} (h : l.ValidStrings) : l.coerced = l := by
  obtain ⟨htype, hactor, htarget, haction, hdata, hhash⟩ := h
  simp [AuditLog.coerced, coerceUTF8_of_valid htype, coerceUTF8_of_valid hactor,
    coerceUTF8_of_valid htarget, coerceUTF8_of_valid haction, coerceUTF8_of_valid hdata,
    coerceUTF8_of_valid hhash]

theorem GenesisState.params_coerced_of_valid {gs : GenesisState} (h : gs.ValidStrings) :
    gs.params.coerced = gs.params := by
  have hmap : gs.params.allowedAuditors.map coerceUTF8 = gs.params.allowedAuditors := by
    conv_rhs => rw [← List.map_id gs.params.allowedAuditors]
    exact List.map_congr_left fun auditor hauditor => coerceUTF8_of_valid (h.2 auditor hauditor)
  rw [Params.coerced, hmap]

theorem validUTF8_txHash (ctx : Context) : ValidUTF8 (txHash sha256 ctx) := by
  have hdigit : ∀ n < 16, hexDigit n < 0x80 := by decide
  have hupper : ∀ b : Byte, 97 ≤ b ∧ b ≤ 102 → b - 32 < 0x80 := by decide +kernel
  have hexEncode_lt : ∀ bz : Bytes, ∀ b ∈ hexEncode bz, b < 0x80 := by
    intro bz b hb
    obtain ⟨a, -, ha⟩ := List.mem_flatMap.mp hb
    rcases List.mem_pair.mp ha with rfl | rfl
    · exact hdigit _ (by omega)
    · exact hdigit _ (by omega)
  apply validUTF8_of_ascii
  intro b hb
  unfold txHash at hb
  split_ifs at hb
  · obtain ⟨a, ha, rfl⟩ := List.mem_map.mp hb
    have hlt := hexEncode_lt _ a ha
    split_ifs with hcase
    · exact hupper a hcase
    · exact hlt
  · cases hb

theorem MsgRecordAudit.log_valid {msg : MsgRecordAudit} (h : msg.ValidStrings) (ctx : Context)
    (id : UInt64) : (msg.log sha256 ctx id).ValidStrings := by
  obtain ⟨hcreator, htype, htarget, haction, hdata⟩ := h
  exact ⟨htype, hcreator, htarget, haction, hdata, validUTF8_txHash sha256 ctx⟩

/-! ### The export of an import -/

/-- The state with its logs in the order of their IDs. -/
def GenesisState.sortedByID (gs : GenesisState) : GenesisState :=
  { gs with logs := sortBy (fun log => log.id.toNat) gs.logs }

/-- What `recordAuditLog` writes. -/
def logEntries (log : AuditLog) : List (Bytes × StoredValue) :=
  (getAuditLogKey log.id, marshal log) ::
    [(getAuditByActorKey log.actor log.id, .raw [0x01]),
      (getAuditByTypeKey log.eventType log.id, .raw [0x01]),
      (getAuditByTimeKey log.timestamp log.id, .raw [0x01])]

theorem foldl_recordAuditLog (logs : List AuditLog) (store : KVStore) :
    logs.foldl recordAuditLog store = store.setAll (logs.flatMap logEntries) :=
  OrderedStore.foldl_setAll logEntries logs store

theorem getAuditLogKey_lt_iff {id id' : UInt64} :
    getAuditLogKey id < getAuditLogKey id' ↔ id.toNat < id'.toNat :=
  append_lt_append_iff.trans (uint64Bytes_lt_iff.trans UInt64.lt_iff_toNat_lt)

section Export

variable {gs : GenesisState}

theorem prefixIterator_genesisStore (hnodup : (gs.logs.map AuditLog.id).Nodup) :
    (genesisStore gs).prefixIterator auditLogKey =
      gs.sortedByID.logs.map fun log => (getAuditLogKey log.id, marshal log) := by
  have hcounter : (genesisStore gs).prefixIterator auditLogKey =
      (gs.logs.foldl recordAuditLog (setParams OrderedStore.empty gs.params)).prefixIterator
        auditLogKey := by
    refine OrderedStore.prefixIterator_congr fun k hk => ?_
    unfold genesisStore initGenesis
    split_ifs
    · refine OrderedStore.get_set_of_ne _ ?_ _
      rintro rfl
      exact absurd hk (by decide)
    · rfl
  rw [hcounter, foldl_recordAuditLog]
  have hids : (gs.logs.map fun log => log.id.toNat).Nodup := by
    have hmap := hnodup.map (f := UInt64.toNat) fun _ _ h => UInt64.toNat_inj.mp h
    rwa [List.map_map] at hmap
  refine OrderedStore.prefixIterator_setAll sortBy_perm ?_ ?_ ?_ ?_
  · exact (sortBy_sorted hids).imp fun h => getAuditLogKey_lt_iff.mpr h
  · intro k hk
    refine OrderedStore.get_set_of_ne _ ?_ _
    rintro rfl
    exact absurd hk (by decide)
  · exact fun log _ => List.prefix_append _ _
  · intro log _ e he hk
    simp only [List.mem_cons, List.not_mem_nil, or_false] at he
    rcases he with rfl | rfl | rfl <;>
      simp [auditLogKey, getAuditByActorKey, auditByActorKey, getAuditByTypeKey, auditByTypeKey,
        getAuditByTimeKey, auditByTimeKey] at hk

theorem get_genesisStore_counter : (genesisStore gs).get auditCounterKey =
    if gs.counter > 0 then some (.raw (uint64Bytes gs.counter)) else none := by
  unfold genesisStore initGenesis
  split_ifs
  · exact OrderedStore.get_set_self _ _ _
  · rw [foldl_recordAuditLog_get_of_head _ _ (Or.inl rfl)]
    exact OrderedStore.get_set_of_ne _ (by decide) _

/-- The export of an imported state is the state, its logs sorted. -/
theorem exportGenesis_genesisStore (hnodup : (gs.logs.map AuditLog.id).Nodup)
    (hvalid : gs.ValidStrings) : exportGenesis (genesisStore gs) = .ok gs.sortedByID := by
  have hlogs : getAllLogs (genesisStore gs) = .ok gs.sortedByID.logs := by
    rw [getAllLogs, prefixIterator_genesisStore hnodup, mapM_ok_iff, List.forall₂_map_left_iff,
      List.forall₂_same]
    intro log hlog
    have hmem : log ∈ gs.logs := sortBy_perm.mem_iff.mp hlog
    simp [mustUnmarshal, AuditLog.coerced_of_valid (hvalid.1 log hmem)]
  have hparams := getParams_genesisStore gs
  rw [GenesisState.params_coerced_of_valid hvalid] at hparams
  simp only [exportGenesis, hlogs, hparams, except_ok_bind, get_genesisStore_counter]
  split_ifs with hcounter
  · simp only [toUint64_raw_uint64Bytes]
    rfl
  · have hzero : gs.counter = 0 := by
      by_contra hne
      exact hcounter (UInt64.pos_iff_ne_zero.mpr hne)
    rw [← hzero]
    rfl

end Export

/-! ### Runs from the default genesis -/

/-- The logs of the accepted messages; IDs are counted from one. -/
def recordedLogs (hist : List (Context × MsgRecordAudit)) : List AuditLog :=
  hist.mapIdx fun i m => m.2.log sha256 m.1 (UInt64.ofNat (i + 1))

/-- The genesis state that has what a history has recorded. -/
def recordedGenesis (hist : List (Context × MsgRecordAudit)) : GenesisState :=
  { logs := recordedLogs sha256 hist, counter := UInt64.ofNat hist.length, params := defaultParams }

theorem incrementCounter_recordAuditLog (store : KVStore) (log : AuditLog) (id id' : UInt64) :
    incrementCounter (recordAuditLog (incrementCounter store id') log) id =
      incrementCounter (recordAuditLog store log) id := by
  refine OrderedStore.ext_get fun k => ?_
  unfold incrementCounter
  rw [OrderedStore.get_set, OrderedStore.get_set]
  split_ifs with hk
  · rfl
  · exact OrderedStore.get_setAll_congr (OrderedStore.get_set_of_ne _ hk _) (logEntries log)

/-- Up to the wrap of the counter the store is the import of what was recorded. -/
theorem run_eq_genesisStore (ms : List (Context × MsgRecordAudit))
    (hwrap : acceptedFrom sha256 defaultGenesis ms < 2 ^ 64) :
    runFrom sha256 defaultGenesis ms = genesisStore (recordedGenesis sha256
      ((deliver sha256).history (genesisStore defaultGenesis) ms)) := by
  revert hwrap
  refine (deliver sha256).run_induction (P := fun store hist => hist.length < 2 ^ 64 →
    store = genesisStore (recordedGenesis sha256 hist)) ms (fun _ => rfl) ?_ ?_
  · intro store hist ih m _ hacc hlen
    rw [List.length_append, List.length_singleton] at hlen
    have hstore := ih (by omega)
    have hid : getNextID store = UInt64.ofNat (hist.length + 1) := by
      rw [hstore, getNextID_genesisStore, UInt64.ofNat_add, UInt64.ofNat_one]
      rfl
    have hpos : UInt64.ofNat (hist.length + 1) > 0 := by
      rw [gt_iff_lt, UInt64.lt_iff_toNat_lt, UInt64.toNat_ofNat']
      have hzero : (0 : UInt64).toNat = 0 := rfl
      omega
    have happend : recordedGenesis sha256 (hist ++ [m]) =
        { logs := recordedLogs sha256 hist ++
            [m.2.log sha256 m.1 (UInt64.ofNat (hist.length + 1))]
          counter := UInt64.ofNat (hist.length + 1), params := defaultParams } := by
      simp [recordedGenesis, recordedLogs]
    rw [deliver_accept sha256 hacc, hid, hstore, happend]
    simp only [genesisStore, initGenesis, if_pos hpos, List.foldl_append, List.foldl_cons,
      List.foldl_nil]
    split_ifs
    · exact incrementCounter_recordAuditLog _ _ _ _
    · rfl
  · intro store hist ih m _ hrej hlen
    rw [deliver_reject sha256 hrej]
    exact ih hlen

theorem recordedLogs_sorted {hist : List (Context × MsgRecordAudit)}
    (hwrap : hist.length < 2 ^ 64) :
    (recordedLogs sha256 hist).Pairwise fun log log' => log.id.toNat < log'.id.toNat := by
  refine List.pairwise_iff_getElem.mpr fun i j hi hj hij => ?_
  simp only [recordedLogs, List.length_mapIdx] at hi hj
  simp only [recordedLogs, List.getElem_mapIdx, MsgRecordAudit.log_id, UInt64.toNat_ofNat']
  omega

theorem recordedGenesis_valid {hist : List (Context × MsgRecordAudit)}
    (hvalid : ∀ m ∈ hist, m.2.ValidStrings) : (recordedGenesis sha256 hist).ValidStrings := by
  refine ⟨fun log hlog => ?_, by simp [recordedGenesis, defaultParams]⟩
  obtain ⟨i, hi, rfl⟩ := List.mem_mapIdx.mp hlog
  exact MsgRecordAudit.log_valid sha256 (hvalid _ (List.getElem_mem hi)) _ _

/-- Export and import undo each other: a store reached by fewer than 2^64
accepted messages is restored, and an admissible state is returned sorted. -/
theorem auditGenesis_roundTrip :
    (∀ ms : List (Context × MsgRecordAudit), (∀ m ∈ ms, m.2.ValidStrings) →
      acceptedFrom sha256 defaultGenesis ms < 2 ^ 64 →
      ∃ gs, exportGenesis (runFrom sha256 defaultGenesis ms) = .ok gs ∧
        initGenesis OrderedStore.empty gs = runFrom sha256 defaultGenesis ms) ∧
    ∀ gs : GenesisState, gs.validate = .ok () → gs.ValidStrings →
      exportGenesis (initGenesis OrderedStore.empty gs) = .ok gs.sortedByID := by
  refine ⟨fun ms hvalid hwrap => ?_, fun gs hgs hvalid => ?_⟩
  · have hrun := run_eq_genesisStore sha256 ms hwrap
    have hsorted := recordedLogs_sorted sha256 hwrap
    have hnodup : ((recordedGenesis sha256 ((deliver sha256).history
        (genesisStore defaultGenesis) ms)).logs.map AuditLog.id).Nodup := by
      refine List.pairwise_map.mpr (hsorted.imp ?_)
      rintro log log' hlt heq
      exact absurd (congrArg UInt64.toNat heq) (ne_of_lt hlt)
    refine ⟨_, ?_, hrun.symm⟩
    rw [hrun, exportGenesis_genesisStore hnodup (recordedGenesis_valid sha256 fun m hm =>
      hvalid m ((deliver sha256).history_subset _ _ hm)), GenesisState.sortedByID,
      recordedGenesis, sortBy_of_sorted hsorted]
  · exact exportGenesis_genesisStore (GenesisState.nodup_of_validate hgs) hvalid

/-- A genesis state with three logs, which do not stand in the order of their IDs. -/
def unorderedGenesis : GenesisState :=
  { logs := [(3, ascii "login"), (1, ascii "custom"), (2, ascii "logout")].map fun e =>
      { id := e.1, eventType := e.2, actor := sampleAddress, target := [], action := ascii "update"
        data := [], blockHeight := 3, timestamp := 1700000000, txHash := [] }
    counter := 3, params := defaultParams }

/-- Two messages after the default genesis, and a state that is returned reordered. -/
theorem genesis_roundTrip_unordered :
    (∃ gs, exportGenesis (runFrom sha256OfEmpty defaultGenesis
          [auditOf (ascii "login"), acceptableMsg defaultGenesis]) = .ok gs ∧
        initGenesis OrderedStore.empty gs = runFrom sha256OfEmpty defaultGenesis
          [auditOf (ascii "login"), acceptableMsg defaultGenesis]) ∧
      exportGenesis (initGenesis OrderedStore.empty unorderedGenesis) =
        .ok unorderedGenesis.sortedByID ∧
      (exportGenesis (initGenesis OrderedStore.empty unorderedGenesis)).map
        (fun gs => gs.logs.map AuditLog.id) = .ok [1, 2, 3] :=
  ⟨(auditGenesis_roundTrip sha256OfEmpty).1 _ (by decide +kernel) (by decide +kernel),
    (auditGenesis_roundTrip sha256OfEmpty).2 _ (by decide +kernel) (by decide +kernel),
    by decide +kernel⟩

/-! ### The counter at its limit -/

/-- After as many messages as there are IDs the counter is stored as zero. -/
theorem get_counter_replicate {n : ℕ} (hn : n + 1 = 2 ^ 64) :
    (runFrom sha256 defaultGenesis (List.replicate (n + 1) (acceptableMsg defaultGenesis))).get
      auditCounterKey = some (.raw (uint64Bytes 0)) := by
  have hacc := accepts_acceptableMsg sha256 defaultGenesis
    (List.replicate n (acceptableMsg defaultGenesis))
  have hid : getNextID (runFrom sha256 defaultGenesis
      (List.replicate n (acceptableMsg defaultGenesis))) = 0 := by
    rw [(runFrom_params_nextID sha256 defaultGenesis _).2, acceptedFrom_replicate, hn]
    rfl
  rw [List.replicate_succ', (runFrom_accept sha256 defaultGenesis _ _ hacc).1, hid]
  exact OrderedStore.get_set_self _ _ _

/-- A counter that has wrapped to zero is exported but not imported. -/
theorem genesis_counter_lost :
    ¬ ∀ (sha256 : Bytes → Bytes) (ms : List (Context × MsgRecordAudit)),
      (∀ m ∈ ms, m.2.ValidStrings) → ∃ gs, exportGenesis (runFrom sha256 defaultGenesis ms) = .ok gs ∧
        initGenesis OrderedStore.empty gs = runFrom sha256 defaultGenesis ms := by
  intro h
  obtain ⟨n, hn⟩ : ∃ n, n + 1 = 2 ^ 64 := ⟨2 ^ 64 - 1, by norm_num⟩
  have hvalid : ∀ m ∈ List.replicate (n + 1) (acceptableMsg defaultGenesis),
      m.2.ValidStrings := by
    intro m hm
    rw [List.eq_of_mem_replicate hm]
    decide +kernel
  obtain ⟨gs, hexport, himport⟩ := h sha256OfEmpty _ hvalid
  have hget := get_counter_replicate sha256OfEmpty hn
  have hcounter : gs.counter = 0 := by
    simp only [exportGenesis, hget, except_bind_ok_iff, except_pure_ok_iff] at hexport
    obtain ⟨logs, -, params, -, rfl⟩ := hexport
    exact toUint64_raw_uint64Bytes 0
  have hnone : (genesisStore gs).get auditCounterKey = none := by
    rw [get_genesisStore_counter, hcounter, if_neg (by decide)]
  rw [← himport] at hget
  rw [genesisStore, hget] at hnone
  cases hnone

end EnergyChain.Audit
