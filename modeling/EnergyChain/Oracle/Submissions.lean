import EnergyChain.Oracle.MsgServer

/-!
# x/oracle: what the store keeps of the accepted submissions

Both keys of a submission hold the record written last under them: the
history key one record per category and timestamp, the latest key one record
per category, whatever its timestamp. From this the two queries are exact
under conditions on the submissions, and only under those.
-/

namespace EnergyChain.Oracle

variable (authority : Bytes)

/-- The records of the accepted submissions, in the order of acceptance. -/
def submissions (hist : List (Context × Msg)) : List OracleData :=
  hist.filterMap fun
    | (ctx, .submitData msg) => some (msg.record ctx)
    | _ => none

/-- The record written last among those that satisfy the predicate. -/
def lastWritten (p : OracleData → Prop) [DecidablePred p] (records : List OracleData) :
    Option OracleData :=
  (records.filter fun d => decide (p d)).getLast?

theorem lastWritten_append (p : OracleData → Prop) [DecidablePred p] (records : List OracleData)
    (d : OracleData) :
    lastWritten p (records ++ [d]) = if p d then some d else lastWritten p records := by
  unfold lastWritten
  by_cases hp : p d <;> simp [hp]

theorem lastWritten_eq_some {p : OracleData → Prop} [DecidablePred p]
    {records : List OracleData} {d : OracleData} (h : lastWritten p records = some d) :
    d ∈ records ∧ p d := by
  simpa using List.mem_filter.mp (List.mem_of_getLast? h)

theorem lastWritten_isSome {p : OracleData → Prop} [DecidablePred p]
    {records : List OracleData} {d : OracleData} (hd : d ∈ records) (hp : p d) :
    ∃ d', lastWritten p records = some d' := by
  refine Option.isSome_iff_exists.mp (List.getLast?_isSome.mpr ?_)
  exact List.ne_nil_of_mem (List.mem_filter.mpr ⟨hd, by simpa using hp⟩)

theorem lastWritten_eq_none {p : OracleData → Prop} [DecidablePred p]
    {records : List OracleData} : lastWritten p records = none ↔ ∀ d ∈ records, ¬ p d := by
  simp [lastWritten]

theorem lastWritten_of_imp {p q : OracleData → Prop} [DecidablePred p] [DecidablePred q]
    {records : List OracleData} {d : OracleData} (h : lastWritten p records = some d) (hq : q d)
    (himp : ∀ d, q d → p d) : lastWritten q records = some d := by
  obtain ⟨front, hfront⟩ := List.getLast?_eq_some_iff.mp h
  have hfilter : records.filter (fun d => decide (q d)) =
      (records.filter fun d => decide (p d)).filter fun d => decide (q d) := by
    rw [List.filter_filter]
    refine List.filter_congr fun d _ => ?_
    by_cases hd : q d <;> simp [hd, himp]
  rw [lastWritten, hfilter, hfront]
  simp [List.filter_append, hq]

/-- In a list sorted by a relation every record comes before the last one. -/
theorem lastWritten_pairwise {R : OracleData → OracleData → Prop} {p : OracleData → Prop}
    [DecidablePred p] {records : List OracleData} {d : OracleData}
    (hsorted : (records.filter fun d => decide (p d)).Pairwise R)
    (h : lastWritten p records = some d) {d' : OracleData} (hd' : d' ∈ records) (hp : p d') :
    d' = d ∨ R d' d := by
  obtain ⟨front, hfront⟩ := List.getLast?_eq_some_iff.mp h
  have hmem : d' ∈ records.filter fun d => decide (p d) :=
    List.mem_filter.mpr ⟨hd', by simpa using hp⟩
  rw [hfront] at hsorted hmem
  rcases List.mem_append.mp hmem with hin | hlast
  · exact Or.inr ((List.pairwise_append.mp hsorted).2.2 d' hin d (List.mem_singleton.mpr rfl))
  · exact Or.inl (List.mem_singleton.mp hlast)

/-- The store holds the last of the records under each history and latest key. -/
structure Holds (store : KVStore) (records : List OracleData) : Prop where
  data : ∀ c t, store.get (getOracleDataKey c t) =
    (lastWritten (fun d => d.category = c ∧ d.timestamp = t) records).map marshal
  latest : ∀ c, store.get (getLatestDataKey c) =
    (lastWritten (fun d => d.category = c) records).map marshal

namespace Holds

variable {store : KVStore} {records : List OracleData}

theorem congr (h : Holds store records) {store' : KVStore}
    (hget : ∀ k : Bytes, k.head? = some 0x01 ∨ k.head? = some 0x03 → store'.get k = store.get k) :
    Holds store' records where
  data c t := (hget _ (Or.inl rfl)).trans (h.data c t)
  latest c := (hget _ (Or.inr rfl)).trans (h.latest c)

theorem addOracle (h : Holds store records) (oracle : OracleInfo) :
    Holds (addOracle store oracle) records :=
  h.congr fun k hk => OrderedStore.get_set_of_ne store (by
    rintro rfl
    simp [(head_key [] oracle.address 0).2.1] at hk) _

theorem removeOracle (h : Holds store records) (address : Bytes) :
    Holds (removeOracle store address) records :=
  h.congr fun k hk => by
    have hne : k ≠ getOracleKey address := by
      rintro rfl
      simp [(head_key [] address 0).2.1] at hk
    rw [Oracle.removeOracle, OrderedStore.get_delete, if_neg hne]

theorem setOracleData (h : Holds store records) (d : OracleData) :
    Holds (setOracleData store d) (records ++ [d]) where
  data c t := by
    have hlatest : getOracleDataKey c t ≠ getLatestDataKey d.category := fun heq => by
      have hhead := congrArg List.head? heq
      simp [(head_key c [] t).1, (head_key d.category [] t).2.2.1] at hhead
    rw [Oracle.setOracleData, OrderedStore.get_set_of_ne _ hlatest, OrderedStore.get_set, h.data,
      lastWritten_append]
    simp only [getOracleDataKey_inj, eq_comm (a := c), eq_comm (a := t)]
    split_ifs <;> rfl
  latest c := by
    have hdata : getLatestDataKey c ≠ getOracleDataKey d.category d.timestamp := fun heq => by
      have hhead := congrArg List.head? heq
      simp [(head_key c [] 0).2.2.1, (head_key d.category [] d.timestamp).1] at hhead
    rw [Oracle.setOracleData, OrderedStore.get_set, OrderedStore.get_set_of_ne _ hdata, h.latest,
      lastWritten_append]
    simp only [getLatestDataKey_inj, eq_comm (a := c)]
    split_ifs <;> rfl

theorem getLatestData (h : Holds store records) (c : Bytes) :
    getLatestData store c =
      (lastWritten (fun d => d.category = c) records).map OracleData.coerced := by
  rw [Oracle.getLatestData, h.latest]
  cases lastWritten (fun d => d.category = c) records <;> simp

end Holds

theorem submissions_append (hist : List (Context × Msg)) (m : Context × Msg) :
    submissions (hist ++ [m]) = submissions hist ++ submissions [m] :=
  List.filterMap_append

theorem mem_submissions {hist : List (Context × Msg)} {d : OracleData} :
    d ∈ submissions hist ↔ ∃ ctx msg, (ctx, Msg.submitData msg) ∈ hist ∧ d = msg.record ctx := by
  simp only [submissions, List.mem_filterMap, Prod.exists]
  constructor
  · rintro ⟨ctx, msg | msg | msg, hm, hrec⟩
    · exact ⟨ctx, msg, hm, (Option.some.inj hrec).symm⟩
    · cases hrec
    · cases hrec
  · rintro ⟨ctx, msg, hm, rfl⟩
    exact ⟨ctx, .submitData msg, hm, rfl⟩

/-- The store reached by a run holds the accepted submissions. -/
theorem run_holds (ms : List (Context × Msg)) :
    Holds ((deliver authority).run genesisStore ms)
      (submissions ((deliver authority).history genesisStore ms)) := by
  refine (deliver authority).run_induction (P := fun store hist =>
    Holds store (submissions hist)) ms ?_ ?_ ?_
  · have hget : ∀ k : Bytes, k.head? = some 0x01 ∨ k.head? = some 0x03 →
        genesisStore.get k = none := fun k hk => by
      have hne : k ≠ paramsKey := by
        rintro rfl
        exact absurd hk (by decide)
      exact OrderedStore.get_set_of_ne _ hne _
    exact ⟨fun c t => hget _ (Or.inl rfl), fun c => hget _ (Or.inr rfl)⟩
  · intro store hist ih m _ hacc
    rw [submissions_append]
    rcases deliver_cases authority store m with ⟨e, he⟩ | ⟨ctx, msg, rfl, -, -, -, hok⟩ |
      ⟨ctx, msg, rfl, -, hok⟩ | ⟨ctx, msg, info, rfl, -, -, hok⟩
    · obtain ⟨r, hr⟩ := hacc
      simp [he] at hr
    · rw [hok]
      exact ih.setOracleData (msg.record ctx)
    · rw [hok]
      simpa [submissions] using ih.addOracle _
    · rw [hok]
      simpa [submissions] using ih.removeOracle _
  · intro store hist ih m _ hrej
    rw [deliver_reject authority hrej]
    exact ih

/-! ### The latest record -/

/-- For every category with a submission, `getLatestData` returns one whose
timestamp is the greatest of the category. -/
def LatestIsGreatest (store : KVStore) (records : List OracleData) : Prop :=
  ∀ c, (∃ d ∈ records, d.category = c) →
    ∃ d ∈ records, d.category = c ∧ getLatestData store c = some d.coerced ∧
      ∀ d' ∈ records, d'.category = c → d'.timestamp ≤ d.timestamp

/-- The submissions of each category come in the order of their timestamps. -/
def InTimestampOrder (records : List OracleData) : Prop :=
  ∀ c, (records.filter fun d => decide (d.category = c)).Pairwise
    fun d d' => d.timestamp ≤ d'.timestamp

theorem InTimestampOrder.latestIsGreatest {store : KVStore} {records : List OracleData}
    (hstore : Holds store records) (horder : InTimestampOrder records) :
    LatestIsGreatest store records := by
  rintro c ⟨d₀, hd₀, hc₀⟩
  obtain ⟨d, hd⟩ := lastWritten_isSome (p := fun d => d.category = c) hd₀ hc₀
  obtain ⟨hmem, hc⟩ := lastWritten_eq_some hd
  refine ⟨d, hmem, hc, by rw [hstore.getLatestData, hd, Option.map_some], fun d' hd' hc' => ?_⟩
  rcases lastWritten_pairwise (horder c) hd hd' hc' with rfl | hle
  · exact Int64.le_refl _
  · exact hle

theorem InTimestampOrder.append_singleton {ds : List OracleData} {d : OracleData}
    (h : InTimestampOrder ds)
    (hd : ∀ x ∈ ds, x.category = d.category → x.timestamp ≤ d.timestamp) :
    InTimestampOrder (ds ++ [d]) := by
  intro c
  rw [List.filter_append]
  refine List.pairwise_append.mpr ⟨h c, ?_, fun x hx y hy => ?_⟩
  · exact List.Pairwise.filter _ (List.pairwise_singleton _ _)
  · obtain ⟨hx, hxc⟩ := List.mem_filter.mp hx
    obtain ⟨hy, hyc⟩ := List.mem_filter.mp hy
    obtain rfl := List.mem_singleton.mp hy
    simp only [decide_eq_true_eq] at hxc hyc
    exact hd x hx (hxc.trans hyc.symm)

/-- The record written last is the latest one; if that is the greatest, none before it is
greater. -/
theorem timestamp_le_of_latestIsGreatest {store : KVStore} {ds : List OracleData} {d : OracleData}
    (hholds : Holds store (ds ++ [d])) (h : LatestIsGreatest store (ds ++ [d])) :
    ∀ x ∈ ds, x.category = d.category → x.timestamp ≤ d.timestamp := by
  intro x hx hxc
  obtain ⟨g, -, -, hlatest, hgreatest⟩ := h d.category ⟨d, by simp, rfl⟩
  rw [hholds.getLatestData, lastWritten_append, if_pos rfl] at hlatest
  have hcoerced : d.coerced = g.coerced := Option.some.inj hlatest
  have htime : d.timestamp = g.timestamp := by
    change d.coerced.timestamp = g.coerced.timestamp
    rw [hcoerced]
  rw [htime]
  exact hgreatest x (List.mem_append_left _ hx) hxc

/-- `getLatestData` is the latest in every state of a run exactly when the
accepted submissions of each category come in timestamp order. -/
theorem getLatestData_latest_iff (ms : List (Context × Msg)) :
    (∀ pre post, ms = pre ++ post →
      LatestIsGreatest ((deliver authority).run genesisStore pre)
        (submissions ((deliver authority).history genesisStore pre))) ↔
      InTimestampOrder (submissions ((deliver authority).history genesisStore ms)) := by
  constructor
  · intro h
    induction ms using List.reverseRecOn with
    | nil => exact fun c => List.Pairwise.nil
    | append_singleton ms m ih =>
      have hinit := ih fun pre post hpre => h pre (post ++ [m]) (by rw [hpre, List.append_assoc])
      have hlast := h (ms ++ [m]) [] (by simp)
      have hholds := run_holds authority (ms ++ [m])
      rw [Handler.history_append] at hlast hholds ⊢
      by_cases hacc : (deliver authority).Accepts ((deliver authority).run genesisStore ms) m
      · have hstep : (deliver authority).history ((deliver authority).run genesisStore ms) [m] =
            [m] := by simp [Handler.history, hacc]
        rw [hstep, submissions_append] at hlast hholds ⊢
        obtain ⟨ctx, msg | msg | msg⟩ := m
        · have hsub : submissions [(ctx, Msg.submitData msg)] = [msg.record ctx] := rfl
          rw [hsub] at hlast hholds ⊢
          exact hinit.append_singleton (timestamp_le_of_latestIsGreatest hholds hlast)
        · simpa [submissions] using hinit
        · simpa [submissions] using hinit
      · simpa [Handler.history, hacc] using hinit
  · rintro horder pre post rfl
    refine InTimestampOrder.latestIsGreatest (run_holds authority pre) fun c => ?_
    have hc := horder c
    rw [Handler.history_append, submissions, List.filterMap_append, List.filter_append] at hc
    exact (List.pairwise_append.mp hc).1

/-- Two registered oracles report a spot price, at the given timestamps, in a
block of time 1700000000. -/
def twoReports (first second : Int64) : List (Context × Msg) :=
  let ctx : Context := { blockHeight := 7, blockTime := 1700000000, txBytes := [] }
  [(ctx, .addOracle { authority := sampleAddress, oracleAddress := sampleAddress
                      name := ascii "grid", authorizedCategories := [] }),
    (ctx, .addOracle { authority := sampleAddress, oracleAddress := otherAddress
                       name := ascii "exchange", authorizedCategories := [] }),
    (ctx, .submitData { submitter := sampleAddress, category := ascii "spot_price"
                        value := ascii "35000", metadata := [], timestamp := first }),
    (ctx, .submitData { submitter := otherAddress, category := ascii "spot_price"
                        value := ascii "34000", metadata := [], timestamp := second })]

/-- The record of the report that has the given submitter and value. -/
def spotPrice (submitter value : Bytes) (timestamp : Int64) : OracleData :=
  { category := ascii "spot_price", value, metadata := [], timestamp, submitter, blockHeight := 7 }

/-- A report accepted later replaces one with a greater timestamp. -/
theorem getLatestData_not_latest :
    ¬ ∀ ms, LatestIsGreatest ((deliver sampleAddress).run genesisStore ms)
      (submissions ((deliver sampleAddress).history genesisStore ms)) := by
  intro h
  have hfirst : spotPrice sampleAddress (ascii "35000") 1700000100 ∈ submissions
      ((deliver sampleAddress).history genesisStore (twoReports 1700000100 1700000050)) := by
    decide +kernel
  obtain ⟨d, -, -, hlatest, hgreatest⟩ :=
    h (twoReports 1700000100 1700000050) (ascii "spot_price") ⟨_, hfirst, rfl⟩
  have hread : (getLatestData ((deliver sampleAddress).run genesisStore
      (twoReports 1700000100 1700000050)) (ascii "spot_price")).map OracleData.timestamp =
      some 1700000050 := by decide +kernel
  rw [hlatest] at hread
  have htime : d.timestamp = 1700000050 := Option.some.inj hread
  have hle := hgreatest _ hfirst rfl
  rw [htime] at hle
  exact absurd hle (by decide +kernel)

/-! ### The history -/

/-- Every record of the list is stored under its history key and appears in
the history of its category at its timestamp. -/
def NoneLost (store : KVStore) (records : List OracleData) : Prop :=
  ∀ d ∈ records, (∃ v, store.get (getOracleDataKey d.category d.timestamp) = some v ∧
      v.unmarshal = some d.coerced) ∧
    d.coerced ∈ getDataHistory store d.category d.timestamp d.timestamp

/-- The range of a single timestamp holds its key, except for the timestamp
whose successor is zero. -/
theorem getOracleDataKey_lt_succ_iff (c : Bytes) (t : Int64) :
    getOracleDataKey c t < getOracleDataKey c (t + 1) ↔ t ≠ -1 := by
  rw [getOracleDataKey_lt_iff, Int64.toUInt64_add, UInt64.lt_iff_toNat_lt, UInt64.toNat_add]
  have hone : (1 : Int64).toUInt64.toNat = 1 := rfl
  have hlt := t.toUInt64.toNat_lt
  have hneg : t = -1 ↔ t.toUInt64.toNat = 18446744073709551615 := by
    constructor
    · rintro rfl
      rfl
    · intro h
      have hmax : t.toUInt64 = (-1 : Int64).toUInt64 := UInt64.toNat_inj.mp h
      exact congrArg UInt64.toInt64 hmax
  rw [hone, Ne, hneg]
  omega

/-- No accepted submission is lost exactly when submissions of one category
and timestamp agree and none is stamped just before the epoch. -/
theorem submissions_noneLost_iff (ms : List (Context × Msg)) :
    NoneLost ((deliver authority).run genesisStore ms)
        (submissions ((deliver authority).history genesisStore ms)) ↔
      (∀ d ∈ submissions ((deliver authority).history genesisStore ms),
        ∀ d' ∈ submissions ((deliver authority).history genesisStore ms),
          d.category = d'.category → d.timestamp = d'.timestamp → d.coerced = d'.coerced) ∧
      ∀ d ∈ submissions ((deliver authority).history genesisStore ms), d.timestamp ≠ -1 := by
  have hholds := run_holds authority ms
  generalize (deliver authority).run genesisStore ms = store at *
  generalize submissions ((deliver authority).history genesisStore ms) = records at *
  constructor
  · intro h
    constructor
    · intro d hd d' hd' hc ht
      obtain ⟨⟨v, hv, hd⟩, -⟩ := h d hd
      obtain ⟨⟨v', hv', hd'⟩, -⟩ := h d' hd'
      rw [hc, ht] at hv
      obtain rfl : v = v' := Option.some.inj (hv.symm.trans hv')
      exact Option.some.inj (hd.symm.trans hd')
    · intro d hd
      obtain ⟨-, hmem⟩ := h d hd
      obtain ⟨⟨k, v⟩, hkv, -⟩ := List.mem_filterMap.mp hmem
      obtain ⟨⟨hlo, hhi⟩, -⟩ := (OrderedStore.mem_iterator store).mp hkv
      exact (getOracleDataKey_lt_succ_iff d.category d.timestamp).mp (lt_of_le_of_lt hlo hhi)
  · rintro ⟨hagree, htime⟩ d hd
    obtain ⟨d', hd'⟩ := lastWritten_isSome (p := fun e => e.category = d.category ∧
      e.timestamp = d.timestamp) hd ⟨rfl, rfl⟩
    obtain ⟨hmem, hc, ht⟩ := lastWritten_eq_some hd'
    have hget : store.get (getOracleDataKey d.category d.timestamp) = some (marshal d') := by
      rw [hholds.data, hd', Option.map_some]
    have hread : (marshal d').unmarshal = some d.coerced := by
      rw [unmarshal_marshal, OracleData.unmarshal_marshal, hagree d' hmem d hd hc ht]
    refine ⟨⟨_, hget, hread⟩, List.mem_filterMap.mpr
      ⟨(getOracleDataKey d.category d.timestamp, marshal d'), ?_, hread⟩⟩
    exact (OrderedStore.mem_iterator store).mpr
      ⟨⟨le_rfl, (getOracleDataKey_lt_succ_iff _ _).mpr (htime d hd)⟩, hget⟩

/-- A second report of the same instant erases the first. -/
theorem submission_lost :
    ¬ ∀ ms, NoneLost ((deliver sampleAddress).run genesisStore ms)
      (submissions ((deliver sampleAddress).history genesisStore ms)) := by
  intro h
  have hfirst : spotPrice sampleAddress (ascii "35000") 1700000000 ∈ submissions
      ((deliver sampleAddress).history genesisStore (twoReports 1700000000 1700000000)) := by
    decide +kernel
  have hmem := (h (twoReports 1700000000 1700000000) _ hfirst).2
  have hhistory : (getDataHistory ((deliver sampleAddress).run genesisStore
      (twoReports 1700000000 1700000000)) (ascii "spot_price") 1700000000 1700000000).map
      OracleData.value = [ascii "34000"] := by decide +kernel
  have hvalue : ascii "35000" ∈ (getDataHistory ((deliver sampleAddress).run genesisStore
      (twoReports 1700000000 1700000000)) (ascii "spot_price") 1700000000 1700000000).map
      OracleData.value := List.mem_map.mpr ⟨_, hmem, by decide⟩
  rw [hhistory] at hvalue
  exact absurd hvalue (by decide +kernel)

end EnergyChain.Oracle
