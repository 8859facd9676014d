import EnergyChain.Cosmos.Store
import EnergyChain.Foundations.Fallible

/-!
# x/oracle: records, messages and genesis

Oracle operators define their own categories and value encoding; the chain
does not constrain them.
-/

namespace EnergyChain.Oracle

/-- A single oracle data submission. -/
structure OracleData where
  category : Bytes
  value : Bytes
  metadata : Bytes
  timestamp : Int64
  submitter : Bytes
  blockHeight : Int64
deriving DecidableEq

/-- An authorized oracle node. -/
structure OracleInfo where
  address : Bytes
  name : Bytes
  active : Bool
  /-- Empty means authorized for all. -/
  authorizedCategories : List Bytes
deriving DecidableEq

def OracleInfo.isAuthorizedFor (o : OracleInfo) (category : Bytes) : Bool :=
  if !o.active then false
  else if o.authorizedCategories.length = 0 then true
  else o.authorizedCategories.any fun c => c == category

structure Params where
  minSubmissions : UInt32
  /-- Seconds before data is considered stale. -/
  dataMaxAge : Int64
deriving DecidableEq

def defaultParams : Params := { minSubmissions := 1, dataMaxAge := 3600 }

def Params.validate (p : Params) : Except Bytes Unit :=
  if p.minSubmissions = 0 then .error (ascii "min_submissions must be positive")
  else if p.dataMaxAge ≤ 0 then .error (ascii "data_max_age must be positive")
  else .ok ()

structure GenesisState where
  oracles : List OracleInfo
  data : List OracleData
  params : Params

def defaultGenesis : GenesisState := { oracles := [], data := [], params := defaultParams }

structure MsgSubmitData where
  submitter : Bytes
  category : Bytes
  value : Bytes
  metadata : Bytes
  timestamp : Int64
deriving DecidableEq

structure MsgAddOracle where
  authority : Bytes
  oracleAddress : Bytes
  name : Bytes
  /-- Empty means all categories. -/
  authorizedCategories : List Bytes
deriving DecidableEq

structure MsgRemoveOracle where
  authority : Bytes
  oracleAddress : Bytes
deriving DecidableEq

inductive Msg where
  | submitData (msg : MsgSubmitData)
  | addOracle (msg : MsgAddOracle)
  | removeOracle (msg : MsgRemoveOracle)
deriving DecidableEq

/-- All three responses are empty structs. -/
inductive MsgResponse where
  | submitData
  | addOracle
  | removeOracle
deriving DecidableEq

/-! ### JSON -/

/-- The record as it reads back: its strings coerced to UTF-8. -/
def OracleData.coerced (d : OracleData) : OracleData :=
  { d with
    category := coerceUTF8 d.category, value := coerceUTF8 d.value
    metadata := coerceUTF8 d.metadata, submitter := coerceUTF8 d.submitter }

def OracleInfo.coerced (o : OracleInfo) : OracleInfo :=
  { o with
    address := coerceUTF8 o.address, name := coerceUTF8 o.name
    authorizedCategories := o.authorizedCategories.map coerceUTF8 }

open Json

instance : GoJson OracleData where
  marshal d := .obj ([("category", encodeString d.category), ("value", encodeString d.value)] ++
    (omitEmpty "metadata" d.metadata ++ [("timestamp", encodeInt64 d.timestamp),
      ("submitter", encodeString d.submitter), ("block_height", encodeInt64 d.blockHeight)]))
  unmarshal
    | .obj fields => do
      let category ← decodeString (fields.lookup "category")
      let value ← decodeString (fields.lookup "value")
      let metadata ← decodeString (fields.lookup "metadata")
      let timestamp ← decodeInt64 (fields.lookup "timestamp")
      let submitter ← decodeString (fields.lookup "submitter")
      let blockHeight ← decodeInt64 (fields.lookup "block_height")
      return { category, value, metadata, timestamp, submitter, blockHeight }
    | _ => none

instance : GoJson OracleInfo where
  marshal o := .obj [("address", encodeString o.address), ("name", encodeString o.name),
    ("active", .bool o.active), ("authorized_categories", encodeStrings o.authorizedCategories)]
  unmarshal
    | .obj fields => do
      let address ← decodeString (fields.lookup "address")
      let name ← decodeString (fields.lookup "name")
      let active ← decodeBool (fields.lookup "active")
      let authorizedCategories ← decodeStrings (fields.lookup "authorized_categories")
      return { address, name, active, authorizedCategories }
    | _ => none

instance : GoJson Params where
  marshal p := .obj [("min_submissions", encodeUint32 p.minSubmissions),
    ("data_max_age", encodeInt64 p.dataMaxAge)]
  unmarshal
    | .obj fields => do
      let minSubmissions ← decodeUint32 (fields.lookup "min_submissions")
      let dataMaxAge ← decodeInt64 (fields.lookup "data_max_age")
      return { minSubmissions, dataMaxAge }
    | _ => none

@[simp] theorem OracleData.unmarshal_marshal (d : OracleData) :
    GoJson.unmarshal (GoJson.marshal d) = some d.coerced := by
  have hmeta : decodeString ((omitEmpty "metadata" d.metadata ++
      [("timestamp", encodeInt64 d.timestamp), ("submitter", encodeString d.submitter),
        ("block_height", encodeInt64 d.blockHeight)]).lookup "metadata") =
      some (coerceUTF8 d.metadata) := decodeString_lookup_omitEmpty _ _ (by simp [List.lookup_cons])
  simp [GoJson.marshal, GoJson.unmarshal, List.lookup_cons, lookup_omitEmpty_of_ne, hmeta,
    OracleData.coerced]

@[simp] theorem OracleInfo.unmarshal_marshal (o : OracleInfo) :
    GoJson.unmarshal (GoJson.marshal o) = some o.coerced := by
  simp [GoJson.marshal, GoJson.unmarshal, List.lookup_cons, OracleInfo.coerced]

@[simp] theorem Params.unmarshal_marshal (p : Params) :
    GoJson.unmarshal (GoJson.marshal p) = some p := by
  simp [GoJson.marshal, GoJson.unmarshal, List.lookup_cons]

/-! ### Validation -/

def MsgSubmitData.validateBasic (accAddressFromBech32 : AddressDecoder)
    (msg : MsgSubmitData) : Except Bytes Unit := do
  let _ ← (accAddressFromBech32 msg.submitter).mapError (ascii "invalid submitter address: " ++ ·)
  if msg.category = [] then throw (ascii "category cannot be empty")
  if msg.value = [] then throw (ascii "value cannot be empty")
  if msg.timestamp ≤ 0 then throw (ascii "timestamp must be positive")

def MsgAddOracle.validateBasic (accAddressFromBech32 : AddressDecoder)
    (msg : MsgAddOracle) : Except Bytes Unit := do
  let _ ← (accAddressFromBech32 msg.authority).mapError (ascii "invalid authority address: " ++ ·)
  let _ ← (accAddressFromBech32 msg.oracleAddress).mapError (ascii "invalid oracle address: " ++ ·)
  if msg.name = [] then throw (ascii "oracle name cannot be empty")

def MsgRemoveOracle.validateBasic (accAddressFromBech32 : AddressDecoder)
    (msg : MsgRemoveOracle) : Except Bytes Unit := do
  let _ ← (accAddressFromBech32 msg.authority).mapError (ascii "invalid authority address: " ++ ·)
  let _ ← (accAddressFromBech32 msg.oracleAddress).mapError (ascii "invalid oracle address: " ++ ·)

def Msg.validateBasic (accAddressFromBech32 : AddressDecoder) : Msg → Except Bytes Unit
  | .submitData msg => msg.validateBasic accAddressFromBech32
  | .addOracle msg => msg.validateBasic accAddressFromBech32
  | .removeOracle msg => msg.validateBasic accAddressFromBech32

theorem MsgSubmitData.timestamp_pos {decode : AddressDecoder} {msg : MsgSubmitData}
    (h : msg.validateBasic decode = .ok ()) : 0 < msg.timestamp := by
  by_contra hnonpos
  have hle : msg.timestamp ≤ 0 := Int64.not_lt.mp hnonpos
  simp only [validateBasic, except_bind_ok_iff] at h
  obtain ⟨_, -, hchecks⟩ := h
  split_ifs at hchecks <;> simp at hchecks

end EnergyChain.Oracle
