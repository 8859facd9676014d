import EnergyChain.Cosmos.Store

/-!
# x/energy: records, messages and genesis

The chain does not define which categories or metadata are valid. Only the
hash of the off-chain payload is stored.
-/

namespace EnergyChain.Energy

/-- A single on-chain energy data attestation. -/
structure EnergyData where
  id : Bytes
  category : Bytes
  submitter : Bytes
  dataHash : Bytes
  metadata : Bytes
  blockHeight : Int64
  timestamp : Int64
deriving DecidableEq

/-- A batch of energy data submissions grouped under one merkle root. -/
structure BatchSubmission where
  id : Bytes
  submitter : Bytes
  category : Bytes
  dataCount : UInt32
  merkleRoot : Bytes
  timestamp : Int64
deriving DecidableEq

structure Params where
  maxBatchSize : UInt32
  /-- Empty means anyone can submit. -/
  allowedSubmitters : List Bytes
deriving DecidableEq

def defaultParams : Params := { maxBatchSize := 100, allowedSubmitters := [] }

structure GenesisState where
  dataRecords : List EnergyData
  batches : List BatchSubmission
  params : Params

def defaultGenesis : GenesisState :=
  { dataRecords := [], batches := [], params := defaultParams }

structure BatchItem where
  dataHash : Bytes
  metadata : Bytes
deriving DecidableEq

structure MsgSubmitEnergyData where
  submitter : Bytes
  category : Bytes
  dataHash : Bytes
  metadata : Bytes
deriving DecidableEq

structure MsgBatchSubmit where
  submitter : Bytes
  category : Bytes
  items : List BatchItem
  merkleRoot : Bytes
deriving DecidableEq

inductive Msg where
  | submitEnergyData (msg : MsgSubmitEnergyData)
  | batchSubmit (msg : MsgBatchSubmit)
deriving DecidableEq

inductive MsgResponse where
  | submitEnergyData (id : Bytes)
  | batchSubmit (batchID : Bytes) (dataCount : UInt32)
deriving DecidableEq

/-! ### JSON -/

/-- The record as it reads back: its strings coerced to UTF-8. -/
def EnergyData.coerced (d : EnergyData) : EnergyData :=
  { d with
    id := coerceUTF8 d.id, category := coerceUTF8 d.category
    submitter := coerceUTF8 d.submitter, dataHash := coerceUTF8 d.dataHash
    metadata := coerceUTF8 d.metadata }

def BatchSubmission.coerced (b : BatchSubmission) : BatchSubmission :=
  { b with
    id := coerceUTF8 b.id, submitter := coerceUTF8 b.submitter
    category := coerceUTF8 b.category, merkleRoot := coerceUTF8 b.merkleRoot }

def Params.coerced (p : Params) : Params :=
  { p with allowedSubmitters := p.allowedSubmitters.map coerceUTF8 }

open Json

instance : GoJson EnergyData where
  marshal d := .obj ([("id", encodeString d.id), ("category", encodeString d.category),
    ("submitter", encodeString d.submitter), ("data_hash", encodeString d.dataHash)] ++
    (omitEmpty "metadata" d.metadata ++
      [("block_height", encodeInt64 d.blockHeight), ("timestamp", encodeInt64 d.timestamp)]))
  unmarshal
    | .obj fields => do
      let id ← decodeString (fields.lookup "id")
      let category ← decodeString (fields.lookup "category")
      let submitter ← decodeString (fields.lookup "submitter")
      let dataHash ← decodeString (fields.lookup "data_hash")
      let metadata ← decodeString (fields.lookup "metadata")
      let blockHeight ← decodeInt64 (fields.lookup "block_height")
      let timestamp ← decodeInt64 (fields.lookup "timestamp")
      return { id, category, submitter, dataHash, metadata, blockHeight, timestamp }
    | _ => none

instance : GoJson BatchSubmission where
  marshal b := .obj [("id", encodeString b.id), ("submitter", encodeString b.submitter),
    ("category", encodeString b.category), ("data_count", encodeUint32 b.dataCount),
    ("merkle_root", encodeString b.merkleRoot), ("timestamp", encodeInt64 b.timestamp)]
  unmarshal
    | .obj fields => do
      let id ← decodeString (fields.lookup "id")
      let submitter ← decodeString (fields.lookup "submitter")
      let category ← decodeString (fields.lookup "category")
      let dataCount ← decodeUint32 (fields.lookup "data_count")
      let merkleRoot ← decodeString (fields.lookup "merkle_root")
      let timestamp ← decodeInt64 (fields.lookup "timestamp")
      return { id, submitter, category, dataCount, merkleRoot, timestamp }
    | _ => none

instance : GoJson Params where
  marshal p := .obj [("max_batch_size", encodeUint32 p.maxBatchSize),
    ("allowed_submitters", encodeStrings p.allowedSubmitters)]
  unmarshal
    | .obj fields => do
      let maxBatchSize ← decodeUint32 (fields.lookup "max_batch_size")
      let allowedSubmitters ← decodeStrings (fields.lookup "allowed_submitters")
      return { maxBatchSize, allowedSubmitters }
    | _ => none

@[simp] theorem EnergyData.unmarshal_marshal (d : EnergyData) :
    GoJson.unmarshal (GoJson.marshal d) = some d.coerced := by
  have hmeta : decodeString ((omitEmpty "metadata" d.metadata ++
      [("block_height", encodeInt64 d.blockHeight),
        ("timestamp", encodeInt64 d.timestamp)]).lookup "metadata") =
      some (coerceUTF8 d.metadata) := decodeString_lookup_omitEmpty _ _ (by simp [List.lookup_cons])
  simp [GoJson.marshal, GoJson.unmarshal, List.lookup_cons, lookup_omitEmpty_of_ne, hmeta,
    EnergyData.coerced]

@[simp] theorem BatchSubmission.unmarshal_marshal (b : BatchSubmission) :
    GoJson.unmarshal (GoJson.marshal b) = some b.coerced := by
  simp [GoJson.marshal, GoJson.unmarshal, List.lookup_cons, BatchSubmission.coerced]

@[simp] theorem Params.unmarshal_marshal (p : Params) :
    GoJson.unmarshal (GoJson.marshal p) = some p.coerced := by
  simp [GoJson.marshal, GoJson.unmarshal, List.lookup_cons, Params.coerced]

/-! ### Validation -/

def Params.validate (p : Params) : Except Bytes Unit :=
  if p.maxBatchSize = 0 then .error (ascii "max_batch_size must be positive") else .ok ()

def MsgSubmitEnergyData.validateBasic (accAddressFromBech32 : AddressDecoder)
    (msg : MsgSubmitEnergyData) : Except Bytes Unit := do
  let _ ← (accAddressFromBech32 msg.submitter).mapError (ascii "invalid submitter address: " ++ ·)
  if msg.category = [] then throw (ascii "category cannot be empty")
  if msg.dataHash = [] then throw (ascii "data hash cannot be empty")

def MsgBatchSubmit.validateBasic (accAddressFromBech32 : AddressDecoder)
    (msg : MsgBatchSubmit) : Except Bytes Unit := do
  let _ ← (accAddressFromBech32 msg.submitter).mapError (ascii "invalid submitter address: " ++ ·)
  if msg.category = [] then throw (ascii "category cannot be empty")
  if msg.items.length = 0 then throw (ascii "batch must contain at least one item")
  if msg.merkleRoot = [] then throw (ascii "merkle root cannot be empty")
  msg.items.zipIdx.forM fun (item, i) =>
    if item.dataHash = [] then
      throw (ascii "item " ++ decimal i ++ ascii ": data hash cannot be empty")
    else pure ()

namespace Msg

def submitter : Msg → Bytes
  | .submitEnergyData msg => msg.submitter
  | .batchSubmit msg => msg.submitter

def validateBasic (accAddressFromBech32 : AddressDecoder) : Msg → Except Bytes Unit
  | .submitEnergyData msg => msg.validateBasic accAddressFromBech32
  | .batchSubmit msg => msg.validateBasic accAddressFromBech32

/-- A message passes only with a submitter that decodes to an account. -/
theorem submitter_of_validateBasic {decode : AddressDecoder} {m : Msg}
    (h : m.validateBasic decode = .ok ()) : ∃ account, decode m.submitter = .ok account := by
  cases m with
  | submitEnergyData msg =>
    cases hdec : decode msg.submitter with
    | ok account => exact ⟨account, hdec⟩
    | error e =>
      simp [validateBasic, MsgSubmitEnergyData.validateBasic, hdec, Except.mapError, bind,
        Except.bind] at h
  | batchSubmit msg =>
    cases hdec : decode msg.submitter with
    | ok account => exact ⟨account, hdec⟩
    | error e =>
      simp [validateBasic, MsgBatchSubmit.validateBasic, hdec, Except.mapError, bind,
        Except.bind] at h

/-- Every string of the message is valid UTF-8. -/
def ValidStrings : Msg → Prop
  | .submitEnergyData msg => ValidUTF8 msg.submitter ∧ ValidUTF8 msg.category ∧
      ValidUTF8 msg.dataHash ∧ ValidUTF8 msg.metadata
  | .batchSubmit msg => ValidUTF8 msg.submitter ∧ ValidUTF8 msg.category ∧
      ValidUTF8 msg.merkleRoot ∧
      ∀ item ∈ msg.items, ValidUTF8 item.dataHash ∧ ValidUTF8 item.metadata

instance : (m : Msg) → Decidable m.ValidStrings
  | .submitEnergyData msg => inferInstanceAs (Decidable (ValidUTF8 msg.submitter ∧
      ValidUTF8 msg.category ∧ ValidUTF8 msg.dataHash ∧ ValidUTF8 msg.metadata))
  | .batchSubmit msg => inferInstanceAs (Decidable (ValidUTF8 msg.submitter ∧
      ValidUTF8 msg.category ∧ ValidUTF8 msg.merkleRoot ∧
      ∀ item ∈ msg.items, ValidUTF8 item.dataHash ∧ ValidUTF8 item.metadata))

end Msg

theorem EnergyData.coerced_of_valid {d : EnergyData} (hid : ValidUTF8 d.id)
    (hcategory : ValidUTF8 d.category) (hsubmitter : ValidUTF8 d.submitter)
    (hhash : ValidUTF8 d.dataHash) (hmetadata : ValidUTF8 d.metadata) : d.coerced = d := by
  simp [EnergyData.coerced, coerceUTF8_of_valid, *]

theorem BatchSubmission.coerced_of_valid {b : BatchSubmission} (hid : ValidUTF8 b.id)
    (hsubmitter : ValidUTF8 b.submitter) (hcategory : ValidUTF8 b.category)
    (hroot : ValidUTF8 b.merkleRoot) : b.coerced = b := by
  simp [BatchSubmission.coerced, coerceUTF8_of_valid, *]

end EnergyChain.Energy
