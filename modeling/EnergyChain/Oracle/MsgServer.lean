import EnergyChain.Foundations.MessageRuns
import EnergyChain.Oracle.Keeper

/-!
# x/oracle: message server

Submissions are checked against the registered oracles and a window around the
block time; registration is reserved to the module authority. Timestamps and
the bounds of the window are 64-bit integers with wrap-around. Emitted events
are left out; nothing in the module reads them.
-/

namespace EnergyChain.Oracle

variable (authority : Bytes)

/-- The width of the window around the block time, in seconds. -/
def maxDrift (params : Params) : Int64 := if params.dataMaxAge ≤ 0 then 3600 else params.dataMaxAge

/-- The record of a submission, stamped with the height of its block. -/
def MsgSubmitData.record (ctx : Context) (msg : MsgSubmitData) : OracleData :=
  { category := msg.category, value := msg.value, metadata := msg.metadata
    timestamp := msg.timestamp, submitter := msg.submitter, blockHeight := ctx.blockHeight }

def submitDataMsg (ctx : Context) (store : KVStore) (msg : MsgSubmitData) :
    KVStore × Except Bytes MsgResponse :=
  if !isAuthorizedOracle store msg.submitter msg.category then
    (store, .error (ascii "address " ++ msg.submitter ++
      ascii " is not an authorized oracle for category " ++ msg.category))
  else
    let blockTime := ctx.blockTime
    let maxDrift := maxDrift (getParams store)
    let window := ascii " (block time " ++ decimalInt blockTime.toInt ++ ascii ", max drift " ++
      decimalInt maxDrift.toInt ++ ascii "s)"
    if msg.timestamp > blockTime + maxDrift then
      (store, .error (ascii "timestamp " ++ decimalInt msg.timestamp.toInt ++
        ascii " is too far in the future" ++ window))
    else if msg.timestamp < blockTime - maxDrift then
      (store, .error (ascii "timestamp " ++ decimalInt msg.timestamp.toInt ++
        ascii " is too far in the past" ++ window))
    else (setOracleData store (msg.record ctx), .ok .submitData)

/-- The error of a message that is not signed by the module authority. -/
def unauthorized (sender : Bytes) : Bytes :=
  ascii "unauthorized: expected " ++ authority ++ ascii ", got " ++ sender

def addOracleMsg (store : KVStore) (msg : MsgAddOracle) : KVStore × Except Bytes MsgResponse :=
  if msg.authority ≠ authority then (store, .error (unauthorized authority msg.authority))
  else
    let oracle : OracleInfo :=
      { address := msg.oracleAddress, name := msg.name, active := true
        authorizedCategories := msg.authorizedCategories }
    (addOracle store oracle, .ok .addOracle)

def removeOracleMsg (store : KVStore) (msg : MsgRemoveOracle) :
    KVStore × Except Bytes MsgResponse :=
  if msg.authority ≠ authority then (store, .error (unauthorized authority msg.authority))
  else
    match getOracle store msg.oracleAddress with
    | none => (store, .error (ascii "oracle not found: " ++ msg.oracleAddress))
    | some _ => (removeOracle store msg.oracleAddress, .ok .removeOracle)

/-- The message server: one message in the context of its block. -/
def deliver : Handler KVStore (Context × Msg) Bytes MsgResponse := fun store m =>
  match m with
  | (ctx, .submitData msg) => submitDataMsg ctx store msg
  | (_, .addOracle msg) => addOracleMsg authority store msg
  | (_, .removeOracle msg) => removeOracleMsg authority store msg

/-- The store of a chain started from the default genesis. -/
def genesisStore : KVStore := initGenesis OrderedStore.empty defaultGenesis

/-! ### What a message can do -/

/-- A message is rejected without a write, or does the one store operation it
is for. -/
theorem deliver_cases (store : KVStore) (m : Context × Msg) :
    (∃ e, deliver authority store m = (store, .error e)) ∨
    (∃ ctx msg, m = (ctx, .submitData msg) ∧
      isAuthorizedOracle store msg.submitter msg.category = true ∧
      msg.timestamp ≤ ctx.blockTime + maxDrift (getParams store) ∧
      ctx.blockTime - maxDrift (getParams store) ≤ msg.timestamp ∧
      deliver authority store m = (setOracleData store (msg.record ctx), .ok .submitData)) ∨
    (∃ ctx msg, m = (ctx, .addOracle msg) ∧ msg.authority = authority ∧
      deliver authority store m = (addOracle store
        { address := msg.oracleAddress, name := msg.name, active := true
          authorizedCategories := msg.authorizedCategories }, .ok .addOracle)) ∨
    (∃ ctx msg info, m = (ctx, .removeOracle msg) ∧ msg.authority = authority ∧
      getOracle store msg.oracleAddress = some info ∧
      deliver authority store m = (removeOracle store msg.oracleAddress, .ok .removeOracle)) := by
  obtain ⟨ctx, msg | msg | msg⟩ := m
  · simp only [deliver, submitDataMsg]
    by_cases hauth : isAuthorizedOracle store msg.submitter msg.category = true
    · by_cases hfuture : msg.timestamp > ctx.blockTime + maxDrift (getParams store)
      · exact Or.inl ⟨_, by rw [hauth, if_neg (by simp), if_pos hfuture]⟩
      · by_cases hpast : msg.timestamp < ctx.blockTime - maxDrift (getParams store)
        · exact Or.inl ⟨_, by rw [hauth, if_neg (by simp), if_neg hfuture, if_pos hpast]⟩
        · refine Or.inr (Or.inl ⟨ctx, msg, rfl, hauth, Int64.not_lt.mp hfuture,
            Int64.not_lt.mp hpast, ?_⟩)
          rw [hauth, if_neg (by simp), if_neg hfuture, if_neg hpast]
    · exact Or.inl ⟨_, by rw [Bool.eq_false_iff.mpr hauth, if_pos (by simp)]⟩
  · simp only [deliver, addOracleMsg]
    by_cases hauth : msg.authority = authority
    · exact Or.inr (Or.inr (Or.inl ⟨ctx, msg, rfl, hauth, by rw [if_neg (by simpa using hauth)]⟩))
    · exact Or.inl ⟨_, by rw [if_pos hauth]⟩
  · simp only [deliver, removeOracleMsg]
    by_cases hauth : msg.authority = authority
    · rw [if_neg (by simpa using hauth)]
      cases hget : getOracle store msg.oracleAddress with
      | none => exact Or.inl ⟨_, rfl⟩
      | some info => exact Or.inr (Or.inr (Or.inr ⟨ctx, msg, info, rfl, hauth, hget, rfl⟩))
    · exact Or.inl ⟨_, by rw [if_pos hauth]⟩

theorem deliver_reject {store : KVStore} {m : Context × Msg}
    (h : ¬ (deliver authority).Accepts store m) : (deliver authority store m).1 = store := by
  rcases deliver_cases authority store m with ⟨e, he⟩ | ⟨ctx, msg, -, -, -, -, hok⟩ |
    ⟨ctx, msg, -, -, hok⟩ | ⟨ctx, msg, info, -, -, -, hok⟩
  · rw [he]
  all_goals exact absurd ⟨_, congrArg Prod.snd hok⟩ h

end EnergyChain.Oracle
