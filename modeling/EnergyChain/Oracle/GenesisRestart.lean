import EnergyChain.Oracle.Provenance

/-!
# x/oracle: export and import of the genesis state

The latest record of a category is not exported. The import writes it anew
with every record of the category, in the order of their timestamps, so a
restarted chain has the record with the greatest timestamp where the original
has the one accepted last.
-/

namespace EnergyChain.Oracle

/-- The store of a chain started from the exported state of another. -/
def restart (store : KVStore) : KVStore := initGenesis OrderedStore.empty (exportGenesis store)

/-- Two stores answer every query alike. -/
structure SameAnswers (s t : KVStore) : Prop where
  latestData : ∀ category, getLatestData s category = getLatestData t category
  dataHistory : ∀ category fromTime toTime,
    getDataHistory s category fromTime toTime = getDataHistory t category fromTime toTime
  oracle : ∀ address, getOracle s address = getOracle t address
  allOracles : getAllOracles s = getAllOracles t
  params : getParams s = getParams t

/-- In every category the record written last has the greatest timestamp, as
an unsigned number. -/
def LastIsGreatest (records : List OracleData) : Prop :=
  ∀ c d, lastWritten (fun d => d.category = c) records = some d →
    ∀ d' ∈ records, d'.category = c → d'.timestamp.toUInt64 ≤ d.timestamp.toUInt64

theorem lastIsGreatest_of_sorted {records : List OracleData}
    (h : records.Pairwise fun d d' => d.timestamp.toUInt64 ≤ d'.timestamp.toUInt64) :
    LastIsGreatest records := by
  intro c d hd d' hd' hc'
  rcases lastWritten_pairwise (h.filter _) hd hd' hc' with rfl | hle
  · exact UInt64.le_refl _
  · exact hle

/-! ### The two exported tables -/

/-- Every key of the exported tables holds a record of its own, as JSON reads
it back. -/
structure Tables (store : KVStore) : Prop where
  data : ∀ k v, oracleDataKeyPrefix <+: k → store.get k = some v →
    ∃ d : OracleData, k = getOracleDataKey d.category d.timestamp ∧ v = marshal d ∧ d.coerced = d
  oracles : ∀ k v, oracleInfoKeyPrefix <+: k → store.get k = some v →
    ∃ o : OracleInfo, k = getOracleKey o.address ∧ v = marshal o ∧ o.coerced = o

theorem run_tables (authority : Bytes) {ms : List (Context × Msg)}
    (hvalid : ∀ m ∈ ms, m.2.ValidStrings) : Tables ((deliver authority).run genesisStore ms) where
  data k v hk hget := by
    obtain ⟨ctx, msg, hmem, rfl, rfl⟩ := run_history authority hk hget
    have hmsg := hvalid _ ((deliver authority).history_subset _ _ hmem)
    exact ⟨msg.record ctx, rfl, rfl, record_coerced ctx hmsg⟩
  oracles k v hk hget := by
    obtain ⟨address, rfl⟩ := hk
    rw [show oracleInfoKeyPrefix ++ address = getOracleKey address from rfl,
      run_registration] at hget
    obtain ⟨add, hadd, rfl⟩ := Option.map_eq_some_iff.mp hget
    obtain ⟨before, ctx, between, hhist, haddr, -⟩ := registered_of_registration hadd
    have hmem : (ctx, Msg.addOracle add) ∈ (deliver authority).history genesisStore ms := by
      simp [hhist]
    have hmsg := hvalid _ ((deliver authority).history_subset _ _ hmem)
    exact ⟨add.oracle, by rw [← haddr]; rfl, rfl, oracle_coerced hmsg⟩

namespace Tables

variable {store : KVStore}

theorem mem_exportGenesis_data (h : Tables store) (d : OracleData) :
    d ∈ (exportGenesis store).data ↔
      store.get (getOracleDataKey d.category d.timestamp) = some (marshal d) ∧ d.coerced = d := by
  simp only [exportGenesis, List.mem_filterMap, Prod.exists, OrderedStore.mem_prefixIterator]
  constructor
  · rintro ⟨k, v, ⟨hk, hget⟩, hread⟩
    obtain ⟨d', rfl, rfl, hd'⟩ := h.data k v hk hget
    rw [unmarshal_marshal, OracleData.unmarshal_marshal, hd'] at hread
    obtain rfl := Option.some.inj hread
    exact ⟨hget, hd'⟩
  · rintro ⟨hget, hd⟩
    exact ⟨_, _, ⟨oracleDataKeyPrefix_isPrefix _ _, hget⟩, by simp [hd]⟩

theorem mem_getAllOracles (h : Tables store) (o : OracleInfo) :
    o ∈ getAllOracles store ↔
      store.get (getOracleKey o.address) = some (marshal o) ∧ o.coerced = o := by
  simp only [getAllOracles, List.mem_filterMap, Prod.exists, OrderedStore.mem_prefixIterator]
  constructor
  · rintro ⟨k, v, ⟨hk, hget⟩, hread⟩
    obtain ⟨o', rfl, rfl, ho'⟩ := h.oracles k v hk hget
    rw [unmarshal_marshal, OracleInfo.unmarshal_marshal, ho'] at hread
    obtain rfl := Option.some.inj hread
    exact ⟨hget, ho'⟩
  · rintro ⟨hget, ho⟩
    exact ⟨_, _, ⟨List.prefix_append _ _, hget⟩, by simp [ho]⟩

theorem exportGenesis_sorted (h : Tables store) :
    (exportGenesis store).data.Pairwise fun d d' =>
      getOracleDataKey d.category d.timestamp < getOracleDataKey d'.category d'.timestamp := by
  refine OrderedStore.pairwise_filterMap_of_key (R := fun k k' => k < k')
    (store.prefixIterator_sorted _)
    (fun d : OracleData => getOracleDataKey d.category d.timestamp) ?_
  rintro ⟨k, v⟩ he d hread
  obtain ⟨hk, hget⟩ := (OrderedStore.mem_prefixIterator store).mp he
  obtain ⟨d', rfl, rfl, hd'⟩ := h.data k v hk hget
  rw [unmarshal_marshal, OracleData.unmarshal_marshal, hd'] at hread
  rw [Option.some.inj hread]

end Tables

/-! ### The import -/

/-- What the import writes. -/
def importedEntries (gs : GenesisState) : List (Bytes × StoredValue) :=
  (gs.oracles.flatMap fun o => [(getOracleKey o.address, marshal o)]) ++
    gs.data.flatMap fun d => [(getOracleDataKey d.category d.timestamp, marshal d),
      (getLatestDataKey d.category, marshal d)]

theorem initGenesis_eq_setAll (store : KVStore) (gs : GenesisState) :
    initGenesis store gs = (setParams store gs.params).setAll (importedEntries gs) := by
  rw [importedEntries, OrderedStore.setAll_append, ← OrderedStore.foldl_setAll,
    ← OrderedStore.foldl_setAll]
  rfl

theorem get_restart {store : KVStore} (h : Tables store) {k : Bytes}
    (hk : oracleDataKeyPrefix <+: k ∨ oracleInfoKeyPrefix <+: k) :
    (restart store).get k = store.get k := by
  have hbase : (setParams OrderedStore.empty (exportGenesis store).params).get k = none := by
    have hne : k ≠ paramsKey := by
      rintro rfl
      exact absurd hk (by decide)
    exact OrderedStore.get_set_of_ne _ hne _
  rw [restart, initGenesis_eq_setAll]
  refine OrderedStore.get_setAll_of_agree (fun e he hkey => ?_) (fun v hv => Or.inl ?_)
    fun _ => hbase
  · subst hkey
    simp only [importedEntries, List.mem_append, List.mem_flatMap, List.mem_singleton] at he
    rcases he with ⟨o, ho, rfl⟩ | ⟨d, hd, he⟩
    · exact ((h.mem_getAllOracles o).mp ho).1
    · rcases List.mem_pair.mp he with rfl | rfl
      · exact ((h.mem_exportGenesis_data d).mp hd).1
      · simp [getLatestDataKey, oracleDataKeyPrefix, oracleInfoKeyPrefix,
          latestDataKeyPrefix] at hk
  · simp only [importedEntries, List.mem_append, List.mem_flatMap, List.mem_singleton]
    rcases hk with hk | hk
    · obtain ⟨d, rfl, rfl, hd⟩ := h.data k v hk hv
      exact Or.inr ⟨d, (h.mem_exportGenesis_data d).mpr ⟨hv, hd⟩, List.mem_cons_self⟩
    · obtain ⟨o, rfl, rfl, ho⟩ := h.oracles k v hk hv
      exact Or.inl ⟨o, (h.mem_getAllOracles o).mpr ⟨hv, ho⟩, rfl⟩

theorem getParams_restart (store : KVStore) : getParams (restart store) = getParams store := by
  have hget : (restart store).get paramsKey = some (marshal (getParams store)) := by
    rw [restart, initGenesis_eq_setAll, OrderedStore.get_setAll_of_notMem]
    · exact OrderedStore.get_set_self _ _ _
    · intro hmem
      obtain ⟨e, he, hkey⟩ := List.mem_map.mp hmem
      simp only [importedEntries, List.mem_append, List.mem_flatMap, List.mem_singleton] at he
      rcases he with ⟨o, -, rfl⟩ | ⟨d, -, he⟩
      · simp [getOracleKey, oracleInfoKeyPrefix, paramsKey, ascii] at hkey
      · rcases List.mem_pair.mp he with rfl | rfl
        · simp [getOracleDataKey, oracleDataKeyPrefix, paramsKey, ascii] at hkey
        · simp [getLatestDataKey, latestDataKeyPrefix, paramsKey, ascii] at hkey
  simp [getParams, hget]

/-- After the import the store holds the exported records as if they had been
submitted in their order. -/
theorem restart_holds (store : KVStore) : Holds (restart store) (exportGenesis store).data := by
  have hfold : ∀ (data : List OracleData) (s : KVStore) (records : List OracleData),
      Holds s records → Holds (data.foldl setOracleData s) (records ++ data) := by
    intro data
    induction data with
    | nil => simp
    | cons d data ih =>
      intro s records hs
      simpa using ih _ _ (hs.setOracleData d)
  have horacles : ∀ (oracles : List OracleInfo) (s : KVStore), Holds s [] →
      Holds (oracles.foldl addOracle s) [] := by
    intro oracles
    induction oracles with
    | nil => exact fun s hs => hs
    | cons o oracles ih => exact fun s hs => ih _ (hs.addOracle o)
  have hstart : Holds (setParams OrderedStore.empty (exportGenesis store).params) [] := by
    have hnone : ∀ k : Bytes, k ≠ paramsKey →
        (setParams OrderedStore.empty (exportGenesis store).params).get k = none :=
      fun k hk => OrderedStore.get_set_of_ne _ hk _
    refine ⟨fun c t => hnone _ ?_, fun c => hnone _ ?_⟩
    · simp [getOracleDataKey, oracleDataKeyPrefix, paramsKey, ascii]
    · simp [getLatestDataKey, latestDataKeyPrefix, paramsKey, ascii]
  exact hfold _ _ [] (horacles _ _ hstart)

/-! ### The latest records -/

section Latest

variable {store : KVStore} {records : List OracleData}

theorem lastWritten_of_exported (htables : Tables store) (hholds : Holds store records)
    (hcoerced : ∀ d ∈ records, d.coerced = d) {d : OracleData} :
    d ∈ (exportGenesis store).data ↔
      lastWritten (fun d' => d'.category = d.category ∧ d'.timestamp = d.timestamp) records =
        some d := by
  rw [htables.mem_exportGenesis_data, hholds.data, Option.map_eq_some_iff]
  constructor
  · rintro ⟨⟨d', hd', heq⟩, hd⟩
    have hread := congrArg (StoredValue.unmarshal (α := OracleData)) heq
    simp only [unmarshal_marshal, OracleData.unmarshal_marshal, Option.some.injEq, hd,
      hcoerced d' (lastWritten_eq_some hd').1] at hread
    rwa [hread] at hd'
  · intro hd
    exact ⟨⟨d, hd, rfl⟩, hcoerced d (lastWritten_eq_some hd).1⟩

/-- The exported record of a category with the greatest timestamp is imported
last. -/
theorem timestamp_le_of_exported (htables : Tables store) {c : Bytes} {d d' : OracleData}
    (hd : lastWritten (fun d => d.category = c) (exportGenesis store).data = some d)
    (hd' : d' ∈ (exportGenesis store).data) (hc : d'.category = c) :
    d'.timestamp.toUInt64 ≤ d.timestamp.toUInt64 := by
  obtain ⟨-, hdc⟩ := lastWritten_eq_some hd
  have hsorted := (htables.exportGenesis_sorted.filter fun d => decide (d.category = c))
  rcases lastWritten_pairwise hsorted hd hd' hc with rfl | hlt
  · exact UInt64.le_refl _
  · rw [hc, hdc, getOracleDataKey_lt_iff] at hlt
    exact UInt64.le_of_lt hlt

theorem getLatestData_restart_iff (htables : Tables store) (hholds : Holds store records)
    (hcoerced : ∀ d ∈ records, d.coerced = d) :
    (∀ c, getLatestData (restart store) c = getLatestData store c) ↔ LastIsGreatest records := by
  have hexported := @lastWritten_of_exported store records htables hholds hcoerced
  -- Every record has an exported one of its category and timestamp.
  have hrepresented : ∀ d ∈ records, ∃ x ∈ (exportGenesis store).data,
      x.category = d.category ∧ x.timestamp = d.timestamp := by
    intro d hd
    obtain ⟨x, hx⟩ := lastWritten_isSome (p := fun d' => d'.category = d.category ∧
      d'.timestamp = d.timestamp) hd ⟨rfl, rfl⟩
    obtain ⟨-, hc, ht⟩ := lastWritten_eq_some hx
    exact ⟨x, hexported.mpr (by rwa [hc, ht]), hc, ht⟩
  constructor
  · intro h c d hd d' hd' hc'
    have hlatest := h c
    rw [(restart_holds store).getLatestData, hholds.getLatestData, hd, Option.map_some,
      Option.map_eq_some_iff] at hlatest
    obtain ⟨g, hg, hgd⟩ := hlatest
    have htime : g.timestamp = d.timestamp := by
      simpa [OracleData.coerced] using congrArg OracleData.timestamp hgd
    obtain ⟨x, hx, hxc, hxt⟩ := hrepresented d' hd'
    rw [← htime, ← hxt]
    exact timestamp_le_of_exported htables hg hx (hxc.trans hc')
  · intro h c
    rw [(restart_holds store).getLatestData, hholds.getLatestData]
    refine congrArg _ ?_
    cases hd : lastWritten (fun d => d.category = c) records with
    | none =>
      refine lastWritten_eq_none.mpr fun x hx hc => ?_
      exact lastWritten_eq_none.mp hd x (lastWritten_eq_some (hexported.mp hx)).1 hc
    | some d =>
      obtain ⟨hmem, hc⟩ := lastWritten_eq_some hd
      have hdata : d ∈ (exportGenesis store).data :=
        hexported.mpr (lastWritten_of_imp hd ⟨rfl, rfl⟩ fun x hx => hx.1.trans hc)
      obtain ⟨g, hg⟩ := lastWritten_isSome (p := fun d => d.category = c) hdata hc
      obtain ⟨hgdata, hgc⟩ := lastWritten_eq_some hg
      have hglast := hexported.mp hgdata
      have hle := timestamp_le_of_exported htables hg hdata hc
      have hge := h c d hd g (lastWritten_eq_some hglast).1 hgc
      have htime : g.timestamp = d.timestamp :=
        congrArg UInt64.toInt64 (UInt64.le_antisymm hge hle)
      have hdlast := hexported.mp hdata
      rw [hgc, htime, ← hc, hdlast] at hglast
      rw [hg, Option.some.inj hglast]

end Latest

theorem getDataHistory_congr {s t : KVStore}
    (h : ∀ k, oracleDataKeyPrefix <+: k → s.get k = t.get k) (c : Bytes) (fromTime toTime : Int64) :
    getDataHistory s c fromTime toTime = getDataHistory t c fromTime toTime := by
  have hiter : s.iterator (getOracleDataKey c fromTime) (getOracleDataKey c (toTime + 1)) =
      t.iterator (getOracleDataKey c fromTime) (getOracleDataKey c (toTime + 1)) := by
    exact OrderedStore.iterator_congr fun k hlow hhigh =>
      h k ((oracleDataKeyPrefix_isPrefix_category c).trans
        (getOracleDataPrefix_of_between hlow hhigh))
  rw [getDataHistory, getDataHistory, hiter]

/-- A restart from the exported state goes unnoticed exactly when the record
accepted last in each category has its greatest timestamp. -/
theorem restart_sameAnswers_iff (authority : Bytes) (ms : List (Context × Msg))
    (hvalid : ∀ m ∈ ms, m.2.ValidStrings) :
    SameAnswers (restart ((deliver authority).run genesisStore ms))
        ((deliver authority).run genesisStore ms) ↔
      LastIsGreatest (submissions ((deliver authority).history genesisStore ms)) := by
  have htables := run_tables authority hvalid
  have hcoerced : ∀ d ∈ submissions ((deliver authority).history genesisStore ms),
      d.coerced = d := by
    intro d hd
    obtain ⟨ctx, msg, hm, rfl⟩ := mem_submissions.mp hd
    exact record_coerced ctx (hvalid _ ((deliver authority).history_subset _ _ hm))
  rw [← getLatestData_restart_iff htables (run_holds authority ms) hcoerced]
  constructor
  · exact fun h => h.latestData
  · intro hlatest
    have hdata : ∀ k, oracleDataKeyPrefix <+: k → _ := fun k hk => get_restart htables (Or.inl hk)
    have horacles : ∀ k, oracleInfoKeyPrefix <+: k → _ :=
      fun k hk => get_restart htables (Or.inr hk)
    obtain ⟨horacle, hall⟩ := sameOracles_of_get horacles
    exact ⟨hlatest, getDataHistory_congr hdata, horacle, hall, getParams_restart _⟩

/-- Two reports in the order of their timestamps. -/
theorem restart_sameAnswers_twoReports :
    SameAnswers (restart ((deliver sampleAddress).run genesisStore
        (twoReports 1700000000 1700000050)))
      ((deliver sampleAddress).run genesisStore (twoReports 1700000000 1700000050)) := by
  refine (restart_sameAnswers_iff sampleAddress _ (by decide +kernel)).mpr ?_
  exact lastIsGreatest_of_sorted (by decide +kernel)

/-- After the import the report with the greater timestamp is the latest, not
the one accepted last. -/
theorem restart_changes_latest :
    ¬ ∀ (authority : Bytes) (ms : List (Context × Msg)), (∀ m ∈ ms, m.2.ValidStrings) →
      SameAnswers (restart ((deliver authority).run genesisStore ms))
        ((deliver authority).run genesisStore ms) := by
  intro h
  have hsame := h sampleAddress (twoReports 1700000100 1700000050) (by decide +kernel)
  have hlatest := congrArg (Option.map OracleData.timestamp)
    (hsame.latestData (ascii "spot_price"))
  exact absurd hlatest (by decide +kernel)

end EnergyChain.Oracle
