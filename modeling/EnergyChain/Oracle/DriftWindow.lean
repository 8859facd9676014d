import EnergyChain.Oracle.MsgServer

/-!
# x/oracle: the window around the block time

The bounds of the window are sums and differences of 64-bit integers. The lower
one is exact. The upper one wraps around when the block time and the drift add
up to 2^63 or more, and then it is negative, so that nothing is accepted.
-/

namespace EnergyChain.Oracle

variable (authority : Bytes)

/-- A submission is accepted when it lies in the window, as the integers go, and
leaves the store alone otherwise. -/
structure WindowExact (store : KVStore) (ctx : Context) (msg : MsgSubmitData) : Prop where
  accepts : (deliver authority).Accepts store (ctx, .submitData msg) ↔
    |msg.timestamp.toInt - ctx.blockTime.toInt| ≤ (getParams store).dataMaxAge.toInt
  rejected : ¬ (deliver authority).Accepts store (ctx, .submitData msg) →
    (deliver authority store (ctx, .submitData msg)).1 = store

theorem Params.dataMaxAge_pos {p : Params} (h : p.validate = .ok ()) : 0 < p.dataMaxAge.toInt := by
  unfold Params.validate at h
  split_ifs at h with hsubmissions hage
  have hpos := Int64.lt_iff_toInt_lt.mp (Int64.not_le.mp hage)
  simpa using hpos

theorem maxDrift_of_validate {p : Params} (h : p.validate = .ok ()) : maxDrift p = p.dataMaxAge := by
  have hpos : ¬ p.dataMaxAge ≤ 0 := by
    rw [Int64.le_iff_toInt_le, Int64.toInt_zero]
    exact not_le.mpr (Params.dataMaxAge_pos h)
  exact if_neg hpos

theorem toInt_add_of_nonneg {a b : Int64} (ha : 0 ≤ a.toInt) (hb : 0 ≤ b.toInt) :
    (a + b).toInt =
      if a.toInt + b.toInt < 2 ^ 63 then a.toInt + b.toInt else a.toInt + b.toInt - 2 ^ 64 := by
  have hamax := a.toInt_lt
  have hbmax := b.toInt_lt
  rw [Int64.toInt_add, Int.bmod_def]
  split_ifs <;> omega

theorem toInt_sub_of_nonneg {a b : Int64} (ha : 0 ≤ a.toInt) (hb : 0 ≤ b.toInt) :
    (a - b).toInt = a.toInt - b.toInt := by
  have hamax := a.toInt_lt
  have hbmax := b.toInt_lt
  rw [Int64.toInt_sub, Int.bmod_def]
  split_ifs <;> omega

theorem accepts_submitData_iff {store : KVStore} {ctx : Context} {msg : MsgSubmitData}
    (hauth : isAuthorizedOracle store msg.submitter msg.category = true) :
    (deliver authority).Accepts store (ctx, .submitData msg) ↔
      msg.timestamp ≤ ctx.blockTime + maxDrift (getParams store) ∧
        ctx.blockTime - maxDrift (getParams store) ≤ msg.timestamp := by
  simp only [Handler.Accepts, deliver, submitDataMsg, hauth, Bool.not_true, Bool.false_eq_true,
    if_false]
  constructor
  · rintro ⟨r, hr⟩
    split_ifs at hr with hfuture hpast
    exact ⟨Int64.not_lt.mp hfuture, Int64.not_lt.mp hpast⟩
  · rintro ⟨hfuture, hpast⟩
    rw [if_neg (Int64.not_lt.mpr hfuture), if_neg (Int64.not_lt.mpr hpast)]
    exact ⟨_, rfl⟩

/-- The window is exact unless its upper bound wraps around and the submission is not
too old anyway. -/
theorem windowExact_iff {decode : AddressDecoder} {store : KVStore} {ctx : Context}
    {msg : MsgSubmitData} (hparams : (getParams store).validate = .ok ())
    (htime : 0 ≤ ctx.blockTime) (hbasic : msg.validateBasic decode = .ok ())
    (hauth : isAuthorizedOracle store msg.submitter msg.category = true) :
    WindowExact authority store ctx msg ↔
      ctx.blockTime.toInt + (getParams store).dataMaxAge.toInt < 2 ^ 63 ∨
        msg.timestamp.toInt < ctx.blockTime.toInt - (getParams store).dataMaxAge.toInt := by
  have hdrift := maxDrift_of_validate hparams
  have hage := Params.dataMaxAge_pos hparams
  have hpos := Int64.lt_iff_toInt_lt.mp (MsgSubmitData.timestamp_pos hbasic)
  rw [Int64.toInt_zero] at hpos
  have hblock : 0 ≤ ctx.blockTime.toInt := by simpa using Int64.le_iff_toInt_le.mp htime
  have hmax := msg.timestamp.toInt_lt
  have hblockMax := ctx.blockTime.toInt_lt
  have hageMax := (getParams store).dataMaxAge.toInt_lt
  have hupper := toInt_add_of_nonneg hblock hage.le
  have hlower := toInt_sub_of_nonneg hblock hage.le
  have hiff : (deliver authority).Accepts store (ctx, .submitData msg) ↔ _ :=
    accepts_submitData_iff authority hauth
  rw [hdrift, Int64.le_iff_toInt_le, Int64.le_iff_toInt_le, hlower] at hiff
  constructor
  · intro hexact
    have haccepts := hiff.symm.trans hexact.accepts
    rw [abs_le] at haccepts
    by_contra hwrap
    rw [not_or, not_lt, not_lt] at hwrap
    rw [if_neg (not_lt.mpr hwrap.1)] at hupper
    have hin := haccepts.mpr ⟨by omega, by omega⟩
    omega
  · intro hcondition
    refine ⟨?_, deliver_reject authority⟩
    rw [hiff, abs_le]
    by_cases hwrap : ctx.blockTime.toInt + (getParams store).dataMaxAge.toInt < 2 ^ 63
    · rw [if_pos hwrap] at hupper
      omega
    · rw [if_neg hwrap] at hupper
      omega

/-- A chain with the given parameters, on which one oracle is registered. -/
def oneOracleStore (params : Params) : KVStore :=
  addOracle (initGenesis OrderedStore.empty { oracles := [], data := [], params })
    { address := sampleAddress, name := ascii "grid", active := true, authorizedCategories := [] }

def priceAt (timestamp : Int64) : MsgSubmitData :=
  { submitter := sampleAddress, category := ascii "spot_price", value := ascii "35000"
    metadata := [], timestamp }

def noon : Context := { blockHeight := 7, blockTime := 1700000000, txBytes := [] }

theorem windowExact_defaultParams :
    WindowExact sampleAddress (oneOracleStore defaultParams) noon (priceAt 1700003600) := by
  have hbasic : (priceAt 1700003600).validateBasic sampleDecoder = .ok () := by decide +kernel
  exact (windowExact_iff sampleAddress (by decide +kernel) (by decide) hbasic
    (by decide +kernel)).mpr (Or.inl (by decide +kernel))

/-- With the largest drift a submission of the block time itself is in the future. -/
theorem windowExact_largest_drift :
    ¬ ∀ (authority : Bytes) (decode : AddressDecoder) (store : KVStore) (ctx : Context)
        (msg : MsgSubmitData), (getParams store).validate = .ok () → 0 ≤ ctx.blockTime →
      msg.validateBasic decode = .ok () →
      isAuthorizedOracle store msg.submitter msg.category = true →
      WindowExact authority store ctx msg := by
  intro h
  have hbasic : (priceAt 1700000000).validateBasic sampleDecoder = .ok () := by decide +kernel
  have hexact := h sampleAddress sampleDecoder
    (oneOracleStore { minSubmissions := 1, dataMaxAge := 9223372036854775807 }) noon
    (priceAt 1700000000) (by decide +kernel) (by decide) hbasic (by decide +kernel)
  have herror : (deliver sampleAddress
      (oneOracleStore { minSubmissions := 1, dataMaxAge := 9223372036854775807 })
      (noon, .submitData (priceAt 1700000000))).2.isOk = false := by decide +kernel
  obtain ⟨r, hr⟩ := hexact.accepts.mpr (by decide +kernel)
  rw [hr] at herror
  cases herror

end EnergyChain.Oracle
