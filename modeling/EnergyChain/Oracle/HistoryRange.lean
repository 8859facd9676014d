import EnergyChain.Oracle.Provenance

/-!
# x/oracle: the range query over the history

The query compares keys, not records. Timestamps are compared as unsigned
numbers, so a negative lower bound lies above every accepted timestamp. A
category is closed by a zero byte, which a category may hold itself, so a key
of another category can lie between the two bounds.
-/

namespace EnergyChain.Oracle

variable (authority : Bytes)

/-- The records of the history table, in the order of their keys. -/
def storedRecords (store : KVStore) : List OracleData :=
  (store.prefixIterator oracleDataKeyPrefix).filterMap fun e => e.2.unmarshal

/-- The record is one the query asks for. -/
def Asked (category : Bytes) (fromTime toTime : Int64) (d : OracleData) : Prop :=
  d.category = category ∧ fromTime ≤ d.timestamp ∧ d.timestamp ≤ toTime

instance (category : Bytes) (fromTime toTime : Int64) (d : OracleData) :
    Decidable (Asked category fromTime toTime d) := inferInstanceAs (Decidable (_ ∧ _))

/-- The query returns the stored records of the category in the range, each
once and in increasing order of their timestamps. -/
structure ExactRange (store : KVStore) (category : Bytes) (fromTime toTime : Int64) : Prop where
  records : (getDataHistory store category fromTime toTime).Perm
    ((storedRecords store).filter fun d => decide (Asked category fromTime toTime d))
  ordered : (getDataHistory store category fromTime toTime).Pairwise
    fun d d' => d.timestamp < d'.timestamp

def InKeyRange (category : Bytes) (fromTime toTime : Int64) (k : Bytes) : Prop :=
  getOracleDataKey category fromTime ≤ k ∧ k < getOracleDataKey category (toTime + 1)

instance (category : Bytes) (fromTime toTime : Int64) (k : Bytes) :
    Decidable (InKeyRange category fromTime toTime k) := inferInstanceAs (Decidable (_ ∧ _))

/-- What the query needs of a submission. One of the category itself must not
lie in a range with a negative lower bound, and not in the range at all if the
category is not valid UTF-8; the key of one of another category must not lie
between the bounds, and JSON must not turn its category into the one asked
for. -/
def RangeSafe (category : Bytes) (fromTime toTime : Int64) (d : OracleData) : Prop :=
  if d.category = category then
    if ValidUTF8 category then 0 ≤ fromTime ∨ toTime < d.timestamp
    else fromTime < 0 ∨ d.timestamp < fromTime ∨ toTime < d.timestamp
  else
    ¬ InKeyRange category fromTime toTime (getOracleDataKey d.category d.timestamp) ∧
      (coerceUTF8 d.category = category → d.timestamp < fromTime ∨ toTime < d.timestamp)

instance (category : Bytes) (fromTime toTime : Int64) (d : OracleData) :
    Decidable (RangeSafe category fromTime toTime d) :=
  inferInstanceAs (Decidable (if d.category = category then
    (if ValidUTF8 category then 0 ≤ fromTime ∨ toTime < d.timestamp
      else fromTime < 0 ∨ d.timestamp < fromTime ∨ toTime < d.timestamp) else _ ∧ (_ → _)))

/-! ### Keys between the bounds -/

section Keys

variable {c c' : Bytes} {fromTime toTime t : Int64}

/-- For a submission of the category itself the bounds mean what they say,
unless the lower one is negative. -/
theorem inKeyRange_self_iff (hpos : 0 < t) (hle : fromTime ≤ toTime) :
    InKeyRange c fromTime toTime (getOracleDataKey c t) ↔
      0 ≤ fromTime ∧ fromTime ≤ t ∧ t ≤ toTime := by
  rw [InKeyRange, ← not_lt, getOracleDataKey_lt_iff, getOracleDataKey_lt_iff, UInt64.not_lt,
    toUInt64_range_iff (Int64.le_of_lt hpos)]
  have hneg : (-1 : Int64).toInt = -1 := rfl
  simp only [Int64.le_iff_toInt_le, Int64.lt_iff_toInt_lt, Int64.toInt_zero, hneg] at hle ⊢
  omega

theorem prefix_of_inKeyRange (h : InKeyRange c fromTime toTime (getOracleDataKey c' t)) :
    c ++ [0x00] <+: c' ++ 0x00 :: uint64Bytes t.toUInt64 := by
  have hpre := getOracleDataPrefix_of_between h.1 h.2
  simpa [getOracleDataPrefixByCategory, getOracleDataKey, oracleDataKeyPrefix,
    List.cons_prefix_cons] using hpre

/-- Of two categories whose keys share that beginning the shorter one, closed
by its zero byte, begins the longer one. -/
theorem closed_isPrefix_of_inKeyRange
    (h : InKeyRange c fromTime toTime (getOracleDataKey c' t)) (hne : c' ≠ c) :
    c ++ [0x00] <+: c' ∨ c' ++ [0x00] <+: c := by
  have hkey := prefix_of_inKeyRange h
  have hc' : c' ++ [0x00] <+: c' ++ 0x00 :: uint64Bytes t.toUInt64 := by simp
  rcases lt_trichotomy c.length c'.length with hlt | heq | hgt
  · exact Or.inl (List.prefix_of_prefix_length_le hkey (List.prefix_append _ _) (by simpa using hlt))
  · refine absurd ?_ hne
    have hfull := List.prefix_of_prefix_length_le hkey hc' (by simp [heq])
    have hcat := hfull.eq_of_length (by simp [heq])
    exact (List.append_cancel_right hcat).symm
  · refine Or.inr (List.prefix_of_prefix_length_le hc' ?_ (by simpa using hgt))
    exact (List.prefix_append _ _).trans hkey

/-- JSON does not make the category of a key between the bounds the category
asked for. -/
theorem not_inKeyRange_of_coerce (hne : c' ≠ c) (hcoerce : coerceUTF8 c' = c) :
    ¬ InKeyRange c fromTime toTime (getOracleDataKey c' t) := by
  intro h
  have hlen : c'.length ≤ c.length := hcoerce ▸ length_le_coerceUTF8 c'
  have hcount : c.count 0 = c'.count 0 := hcoerce ▸ count_zero_coerceUTF8 c'
  rcases closed_isPrefix_of_inKeyRange h hne with hpre | hpre
  · have hlonger := hpre.length_le
    simp only [List.length_append, List.length_singleton] at hlonger
    omega
  · have hmore := hpre.sublist.count_le 0
    rw [List.count_append, hcount] at hmore
    simp at hmore

/-- Categories without zero bytes do not share keys between the bounds. -/
theorem not_inKeyRange_of_zero_notMem (hc : (0 : Byte) ∉ c) (hc' : (0 : Byte) ∉ c')
    (hne : c' ≠ c) : ¬ InKeyRange c fromTime toTime (getOracleDataKey c' t) := by
  intro h
  rcases closed_isPrefix_of_inKeyRange h hne with hpre | hpre
  · exact hc' (hpre.subset (by simp))
  · exact hc (hpre.subset (by simp))

end Keys

/-- The key is between the bounds for exactly the submissions that read back
as records the query asks for. -/
theorem rangeSafe_iff {c : Bytes} {fromTime toTime : Int64} {d : OracleData}
    (hpos : 0 < d.timestamp) (hle : fromTime ≤ toTime) :
    RangeSafe c fromTime toTime d ↔
      (InKeyRange c fromTime toTime (getOracleDataKey d.category d.timestamp) ↔
        Asked c fromTime toTime d.coerced) := by
  have hasked : Asked c fromTime toTime d.coerced ↔
      coerceUTF8 d.category = c ∧ fromTime ≤ d.timestamp ∧ d.timestamp ≤ toTime := Iff.rfl
  rw [hasked, RangeSafe]
  split_ifs with hc hvalid
  · rw [hc, inKeyRange_self_iff hpos hle, coerceUTF8_of_valid hvalid]
    rw [Int64.lt_iff_toInt_lt] at hpos
    simp only [Int64.le_iff_toInt_le, Int64.lt_iff_toInt_lt, true_and]
    omega
  · rw [hc, inKeyRange_self_iff hpos hle, coerceUTF8_eq_self_iff]
    simp only [Int64.le_iff_toInt_le, Int64.lt_iff_toInt_lt, hvalid, false_and, iff_false]
    omega
  · constructor
    · rintro ⟨hkey, hcoerced⟩
      refine iff_of_false hkey ?_
      rintro ⟨heq, hfrom, hto⟩
      rcases hcoerced heq with hlt | hlt
      · exact absurd hfrom (Int64.not_le.mpr hlt)
      · exact absurd hto (Int64.not_le.mpr hlt)
    · intro h
      have hkey : ¬ InKeyRange c fromTime toTime (getOracleDataKey d.category d.timestamp) :=
        fun hin => not_inKeyRange_of_coerce hc (h.mp hin).1 hin
      refine ⟨hkey, fun heq => ?_⟩
      by_contra hrange
      rw [not_or, Int64.not_lt, Int64.not_lt] at hrange
      exact hkey (h.mpr ⟨heq, hrange⟩)

/-- Between plain categories nothing is confused, whatever the upper bound. -/
theorem rangeSafe_of_plain {c : Bytes} {fromTime toTime : Int64} {d : OracleData}
    (hc : (0 : Byte) ∉ c) (hcvalid : ValidUTF8 c) (hd : (0 : Byte) ∉ d.category)
    (hdvalid : ValidUTF8 d.category) (hfrom : 0 ≤ fromTime) : RangeSafe c fromTime toTime d := by
  rw [RangeSafe]
  split_ifs with heq
  · exact Or.inl hfrom
  · refine ⟨not_inKeyRange_of_zero_notMem hc hd heq, fun hcoerced => ?_⟩
    rw [coerceUTF8_of_valid hdvalid] at hcoerced
    exact absurd hcoerced heq

/-! ### The query -/

theorem iterator_eq_filter (store : KVStore) (c : Bytes) (fromTime toTime : Int64) :
    store.iterator (getOracleDataKey c fromTime) (getOracleDataKey c (toTime + 1)) =
      (store.prefixIterator oracleDataKeyPrefix).filter
        fun e => decide (InKeyRange c fromTime toTime e.1) := by
  simp only [OrderedStore.iterator, OrderedStore.prefixIterator, OrderedStore.restrict,
    List.filter_filter]
  refine List.filter_congr fun e _ => ?_
  by_cases hin : InKeyRange c fromTime toTime e.1
  · have hpre : oracleDataKeyPrefix <+: e.1 :=
      (oracleDataKeyPrefix_isPrefix_category c).trans (getOracleDataPrefix_of_between hin.1 hin.2)
    have hin' := hin
    rw [InKeyRange] at hin'
    simp [hin, hin', hpre]
  · have hin' := hin
    rw [InKeyRange] at hin'
    simp [hin, hin']

theorem timestamp_pos {decode : AddressDecoder} {ms : List (Context × Msg)}
    (hbasic : ∀ m ∈ ms, m.2.validateBasic decode = .ok ()) {d : OracleData}
    (hd : d ∈ submissions ((deliver authority).history genesisStore ms)) : 0 < d.timestamp := by
  obtain ⟨ctx, msg, hm, rfl⟩ := mem_submissions.mp hd
  exact MsgSubmitData.timestamp_pos (hbasic _ ((deliver authority).history_subset _ _ hm))

/-- The history table holds the records as they read back, at most one for each key and
one for each key that some record has. -/
structure TableOf (store : KVStore) (records : List OracleData) : Prop where
  positive : ∀ d ∈ records, 0 < d.timestamp
  entry : ∀ e ∈ store.prefixIterator oracleDataKeyPrefix, ∃ d ∈ records,
    e.1 = getOracleDataKey d.category d.timestamp ∧ e.2.unmarshal = some d.coerced
  stored : ∀ d ∈ records, ∃ x ∈ records, x.category = d.category ∧ x.timestamp = d.timestamp ∧
    store.get (getOracleDataKey d.category d.timestamp) = some (marshal x)

theorem run_tableOf {decode : AddressDecoder} (ms : List (Context × Msg))
    (hbasic : ∀ m ∈ ms, m.2.validateBasic decode = .ok ()) :
    TableOf ((deliver authority).run genesisStore ms)
      (submissions ((deliver authority).history genesisStore ms)) where
  positive d hd := timestamp_pos authority hbasic hd
  entry e he := by
    obtain ⟨hk, hget⟩ := (OrderedStore.mem_prefixIterator _).mp he
    obtain ⟨ctx, msg, hm, hkey, hvalue⟩ := run_history authority hk hget
    exact ⟨msg.record ctx, mem_submissions.mpr ⟨ctx, msg, hm, rfl⟩, hkey, by simp [hvalue]⟩
  stored d hd := by
    obtain ⟨x, hx⟩ := lastWritten_isSome (p := fun d' => d'.category = d.category ∧
      d'.timestamp = d.timestamp) hd ⟨rfl, rfl⟩
    obtain ⟨hmem, hcategory, htimestamp⟩ := lastWritten_eq_some hx
    have hget := (run_holds authority ms).data d.category d.timestamp
    rw [hx, Option.map_some] at hget
    exact ⟨x, hmem, hcategory, htimestamp, hget⟩

namespace TableOf

variable {store : KVStore} {records : List OracleData} {c : Bytes} {fromTime toTime : Int64}

theorem rangeSafe_iff (h : TableOf store records) (hle : fromTime ≤ toTime) :
    (∀ d ∈ records, RangeSafe c fromTime toTime d) ↔
      ∀ e ∈ store.prefixIterator oracleDataKeyPrefix, ∀ d : OracleData, e.2.unmarshal = some d →
        (decide (InKeyRange c fromTime toTime e.1) = true ↔
          decide (Asked c fromTime toTime d) = true) := by
  simp only [decide_eq_true_eq]
  constructor
  · intro hsafe e he d hread
    obtain ⟨x, hx, hkey, hreadx⟩ := h.entry e he
    obtain rfl := Option.some.inj (hread.symm.trans hreadx)
    rw [hkey]
    exact (Oracle.rangeSafe_iff (h.positive x hx) hle).mp (hsafe x hx)
  · intro hall d hd
    obtain ⟨x, hx, hcategory, htimestamp, hget⟩ := h.stored d hd
    have hmem := (OrderedStore.mem_prefixIterator store).mpr
      ⟨oracleDataKeyPrefix_isPrefix _ _, hget⟩
    have hread := hall _ hmem x.coerced (by simp)
    have hsafe := (Oracle.rangeSafe_iff (h.positive x hx) hle).mpr
      (by rwa [hcategory, htimestamp])
    rwa [RangeSafe, hcategory, htimestamp] at hsafe

/-- Where the bounds select what is asked for, they are passed by keys of the category
itself only, which are ordered by their timestamps. -/
theorem ordered (h : TableOf store records)
    (hall : ∀ e ∈ store.prefixIterator oracleDataKeyPrefix, ∀ d : OracleData,
      e.2.unmarshal = some d → (decide (InKeyRange c fromTime toTime e.1) = true ↔
        decide (Asked c fromTime toTime d) = true)) :
    (getDataHistory store c fromTime toTime).Pairwise
      fun d d' => d.timestamp < d'.timestamp := by
  have hkey : ∀ e ∈ store.iterator (getOracleDataKey c fromTime)
      (getOracleDataKey c (toTime + 1)), ∀ d : OracleData, e.2.unmarshal = some d →
      e.1 = getOracleDataKey c d.timestamp ∧ 0 < d.timestamp := by
    intro e he d hread
    rw [iterator_eq_filter] at he
    obtain ⟨he, hin⟩ := List.mem_filter.mp he
    have hasked := (hall e he d hread).mp hin
    obtain ⟨x, hx, hxkey, hreadx⟩ := h.entry e he
    obtain rfl := Option.some.inj (hread.symm.trans hreadx)
    simp only [decide_eq_true_eq] at hin hasked
    by_cases hxc : x.category = c
    · exact ⟨by rw [hxkey, hxc]; rfl, h.positive x hx⟩
    · rw [hxkey] at hin
      exact absurd hin (not_inKeyRange_of_coerce hxc hasked.1)
  refine (OrderedStore.pairwise_filterMap_of_key (R := fun k k' => k < k')
    (store.iterator_sorted _ _) (fun d : OracleData => getOracleDataKey c d.timestamp)
    fun e he d hread => (hkey e he d hread).1).imp_of_mem ?_
  intro d d' hd hd' hlt
  obtain ⟨e, he, hread⟩ := List.mem_filterMap.mp hd
  obtain ⟨e', he', hread'⟩ := List.mem_filterMap.mp hd'
  exact (toUInt64_lt_iff (Int64.le_of_lt (hkey e he d hread).2)
    (Int64.le_of_lt (hkey e' he' d' hread').2)).mp (getOracleDataKey_lt_iff.mp hlt)

end TableOf

/-- The range query is exact for its arguments exactly when every accepted
submission is safe for them. -/
theorem exactRange_iff {decode : AddressDecoder} (ms : List (Context × Msg))
    (hbasic : ∀ m ∈ ms, m.2.validateBasic decode = .ok ()) (c : Bytes) {fromTime toTime : Int64}
    (hle : fromTime ≤ toTime) :
    ExactRange ((deliver authority).run genesisStore ms) c fromTime toTime ↔
      ∀ d ∈ submissions ((deliver authority).history genesisStore ms),
        RangeSafe c fromTime toTime d := by
  have htable := run_tableOf authority ms hbasic
  rw [htable.rangeSafe_iff hle]
  constructor
  · intro hexact
    apply OrderedStore.iff_of_filterMap_filter_perm
    · intro e he
      obtain ⟨d, -, -, hread⟩ := htable.entry e he
      exact ⟨_, hread⟩
    · rw [← iterator_eq_filter]
      exact hexact.records
  · intro hall
    refine ⟨?_, htable.ordered hall⟩
    rw [getDataHistory, iterator_eq_filter, OrderedStore.filterMap_filter_of_iff hall]
    rfl

/-- An oracle is registered and reports for the categories at the timestamps, in
a block of time 1700000000. -/
def reports (entries : List (Bytes × Int64)) : List (Context × Msg) :=
  let ctx : Context := { blockHeight := 7, blockTime := 1700000000, txBytes := [] }
  (ctx, .addOracle { authority := sampleAddress, oracleAddress := sampleAddress
                     name := ascii "grid", authorizedCategories := [] }) ::
    entries.map fun e => (ctx, .submitData { submitter := sampleAddress, category := e.1
                                             value := ascii "35000", metadata := []
                                             timestamp := e.2 })

theorem exactRange_reports :
    ExactRange ((deliver sampleAddress).run genesisStore (reports
        [(ascii "spot_price", 1700000000), (ascii "carbon_price", 1700000010),
          (ascii "spot_price", 1700000050)]))
      (ascii "spot_price") 0 1700000040 := by
  have hbasic : ∀ m ∈ reports [(ascii "spot_price", 1700000000),
      (ascii "carbon_price", 1700000010), (ascii "spot_price", 1700000050)],
      m.2.validateBasic sampleDecoder = .ok () := by decide +kernel
  refine (exactRange_iff sampleAddress _ hbasic _ (by decide)).mpr fun d hd => ?_
  have hplain : (0 : Byte) ∉ d.category ∧ ValidUTF8 d.category := by
    revert d
    decide +kernel
  exact rangeSafe_of_plain (by decide) (by decide) hplain.1 hplain.2 (by decide)

/-- Asked from a negative time on, the query finds nothing. -/
theorem exactRange_negative_from :
    ¬ ∀ (authority : Bytes) (decode : AddressDecoder) (ms : List (Context × Msg)),
      (∀ m ∈ ms, m.2.validateBasic decode = .ok ()) →
      ∀ (c : Bytes) (fromTime toTime : Int64), fromTime ≤ toTime →
        ExactRange ((deliver authority).run genesisStore ms) c fromTime toTime := by
  intro h
  have hbasic : ∀ m ∈ reports [(ascii "spot_price", 1700000000)],
      m.2.validateBasic sampleDecoder = .ok () := by decide +kernel
  have hrange := h sampleAddress sampleDecoder _ hbasic (ascii "spot_price") (-1) 1700000000
    (by decide)
  exact absurd hrange.records.length_eq (by decide +kernel)

/-- Asked for all records of the category `A` and a zero byte, it returns one of `A`. -/
example : (getDataHistory ((deliver sampleAddress).run genesisStore (reports
    [(ascii "A", 1700000000)])) [0x41, 0x00] 0 9223372036854775807).map OracleData.category =
    [[0x41]] := by decide +kernel

end EnergyChain.Oracle
