import EnergyChain.Cosmos.Store

/-!
# x/audit: logs, messages and genesis

Event types are defined by the users. The ID counter of a genesis state stands
next to its logs; `validate` looks at the logs only.
-/

namespace EnergyChain.Audit

/-- A single audit trail entry. -/
structure AuditLog where
  id : UInt64
  eventType : Bytes
  actor : Bytes
  target : Bytes
  action : Bytes
  data : Bytes
  blockHeight : Int64
  timestamp : Int64
  txHash : Bytes
deriving DecidableEq

structure Params where
  largeTransferThreshold : UInt64
  retentionBlocks : Int64
  allowedAuditors : List Bytes
  maxDataSize : Int64
deriving DecidableEq

def defaultParams : Params :=
  { largeTransferThreshold := 1000000, retentionBlocks := 0, allowedAuditors := []
    maxDataSize := 65536 }

def Params.validate (p : Params) : Except Bytes Unit :=
  if p.retentionBlocks < 0 then
    .error (ascii "retention_blocks must be non-negative, got " ++ decimalInt p.retentionBlocks.toInt)
  else if p.maxDataSize < 0 then
    .error (ascii "max_data_size must be non-negative, got " ++ decimalInt p.maxDataSize.toInt)
  else .ok ()

structure GenesisState where
  logs : List AuditLog
  counter : UInt64
  params : Params

def defaultGenesis : GenesisState := { logs := [], counter := 0, params := defaultParams }

/-- The loop of `GenesisState.Validate`; `seen` has the IDs of the logs before index `i`. -/
def validateLogs (seen : List UInt64) : ℕ → List AuditLog → Except Bytes Unit
  | _, [] => .ok ()
  | i, log :: rest =>
    let name := ascii "audit log " ++ decimal log.id.toNat
    if log.id ∈ seen then
      .error (ascii "duplicate audit log ID " ++ decimal log.id.toNat ++ ascii " at index " ++
        decimal i)
    else if log.actor = [] then .error (name ++ ascii " has empty actor")
    else if log.action = [] then .error (name ++ ascii " has empty action")
    else if log.eventType = [] then .error (name ++ ascii " has empty event_type")
    else validateLogs (log.id :: seen) (i + 1) rest

def GenesisState.validate (gs : GenesisState) : Except Bytes Unit := do
  gs.params.validate.mapError (ascii "invalid params: " ++ ·)
  validateLogs [] 0 gs.logs

structure MsgRecordAudit where
  creator : Bytes
  eventType : Bytes
  target : Bytes
  action : Bytes
  data : Bytes
deriving DecidableEq

/-- The SDK errors a failed check is wrapped in, with the text of the check. -/
inductive BasicError where
  | invalidAddress (text : Bytes)
  | invalidRequest (text : Bytes)
deriving DecidableEq

def MsgRecordAudit.validateBasic (accAddressFromBech32 : AddressDecoder)
    (msg : MsgRecordAudit) : Except BasicError Unit := do
  let _ ← (accAddressFromBech32 msg.creator).mapError fun e =>
    .invalidAddress (ascii "invalid creator address: " ++ e)
  if msg.eventType = [] then throw (.invalidRequest (ascii "event_type cannot be empty"))
  if msg.action = [] then throw (.invalidRequest (ascii "action cannot be empty"))

/-! ### JSON -/

/-- The log as it reads back: its strings coerced to UTF-8. -/
def AuditLog.coerced (l : AuditLog) : AuditLog :=
  { l with
    eventType := coerceUTF8 l.eventType, actor := coerceUTF8 l.actor
    target := coerceUTF8 l.target, action := coerceUTF8 l.action
    data := coerceUTF8 l.data, txHash := coerceUTF8 l.txHash }

def Params.coerced (p : Params) : Params :=
  { p with allowedAuditors := p.allowedAuditors.map coerceUTF8 }

open Json

instance : GoJson AuditLog where
  marshal l := .obj ([("id", encodeUint64 l.id), ("event_type", encodeString l.eventType),
    ("actor", encodeString l.actor)] ++ (omitEmpty "target" l.target ++
      ([("action", encodeString l.action)] ++ (omitEmpty "data" l.data ++
        ([("block_height", encodeInt64 l.blockHeight), ("timestamp", encodeInt64 l.timestamp)] ++
          omitEmpty "tx_hash" l.txHash)))))
  unmarshal
    | .obj fields => do
      let id ← decodeUint64 (fields.lookup "id")
      let eventType ← decodeString (fields.lookup "event_type")
      let actor ← decodeString (fields.lookup "actor")
      let target ← decodeString (fields.lookup "target")
      let action ← decodeString (fields.lookup "action")
      let data ← decodeString (fields.lookup "data")
      let blockHeight ← decodeInt64 (fields.lookup "block_height")
      let timestamp ← decodeInt64 (fields.lookup "timestamp")
      let txHash ← decodeString (fields.lookup "tx_hash")
      return { id, eventType, actor, target, action, data, blockHeight, timestamp, txHash }
    | _ => none

instance : GoJson Params where
  marshal p := .obj [("large_transfer_threshold", encodeUint64 p.largeTransferThreshold),
    ("retention_blocks", encodeInt64 p.retentionBlocks),
    ("allowed_auditors", encodeStrings p.allowedAuditors),
    ("max_data_size", encodeInt64 p.maxDataSize)]
  unmarshal
    | .obj fields => do
      let largeTransferThreshold ← decodeUint64 (fields.lookup "large_transfer_threshold")
      let retentionBlocks ← decodeInt64 (fields.lookup "retention_blocks")
      let allowedAuditors ← decodeStrings (fields.lookup "allowed_auditors")
      let maxDataSize ← decodeInt64 (fields.lookup "max_data_size")
      return { largeTransferThreshold, retentionBlocks, allowedAuditors, maxDataSize }
    | _ => none

@[simp] theorem AuditLog.unmarshal_marshal (l : AuditLog) :
    GoJson.unmarshal (GoJson.marshal l) = some l.coerced := by
  have hend : ∀ tag : String, tag ≠ "tx_hash" →
      (omitEmpty "tx_hash" l.txHash).lookup tag = none := fun tag htag => by
    simpa using lookup_omitEmpty_of_ne htag l.txHash []
  have hhash : decodeString ((omitEmpty "tx_hash" l.txHash).lookup "tx_hash") =
      some (coerceUTF8 l.txHash) := by
    simpa using decodeString_lookup_omitEmpty "tx_hash" l.txHash (List.lookup_nil (a := "tx_hash"))
  have hdata : decodeString ((omitEmpty "data" l.data ++
      ("block_height", encodeInt64 l.blockHeight) :: ("timestamp", encodeInt64 l.timestamp) ::
        omitEmpty "tx_hash" l.txHash).lookup "data") = some (coerceUTF8 l.data) :=
    decodeString_lookup_omitEmpty _ _ (by simp [List.lookup_cons, hend])
  have htarget : decodeString ((omitEmpty "target" l.target ++
      ("action", encodeString l.action) :: (omitEmpty "data" l.data ++
        ("block_height", encodeInt64 l.blockHeight) :: ("timestamp", encodeInt64 l.timestamp) ::
          omitEmpty "tx_hash" l.txHash)).lookup "target") = some (coerceUTF8 l.target) :=
    decodeString_lookup_omitEmpty _ _ (by simp [List.lookup_cons, lookup_omitEmpty_of_ne, hend])
  simp [GoJson.marshal, GoJson.unmarshal, List.lookup_cons, lookup_omitEmpty_of_ne, hhash, hdata,
    htarget, AuditLog.coerced]

@[simp] theorem Params.unmarshal_marshal (p : Params) :
    GoJson.unmarshal (GoJson.marshal p) = some p.coerced := by
  simp [GoJson.marshal, GoJson.unmarshal, List.lookup_cons, Params.coerced]

/-! ### Validation -/

theorem nodup_of_validateLogs {seen : List UInt64} {i : ℕ} {logs : List AuditLog}
    (h : validateLogs seen i logs = .ok ()) :
    (logs.map AuditLog.id).Nodup ∧ ∀ log ∈ logs, log.id ∉ seen := by
  induction logs generalizing seen i with
  | nil => simp
  | cons log rest ih =>
    unfold validateLogs at h
    split_ifs at h with hseen
    obtain ⟨hnodup, hfresh⟩ := ih h
    have hlog : log.id ∉ rest.map AuditLog.id := by
      intro hmem
      obtain ⟨log', hlog', heq⟩ := List.mem_map.mp hmem
      exact hfresh log' hlog' (heq ▸ List.mem_cons_self)
    refine ⟨List.nodup_cons.mpr ⟨hlog, hnodup⟩, fun log' hlog' => ?_⟩
    rcases List.mem_cons.mp hlog' with rfl | hlog'
    · exact hseen
    · exact fun hmem => hfresh log' hlog' (List.mem_cons_of_mem _ hmem)

theorem GenesisState.nodup_of_validate {gs : GenesisState} (h : gs.validate = .ok ()) :
    (gs.logs.map AuditLog.id).Nodup := by
  unfold GenesisState.validate at h
  cases hparams : gs.params.validate with
  | error e =>
    rw [hparams] at h
    cases h
  | ok u =>
    rw [hparams] at h
    exact (nodup_of_validateLogs h).1

end EnergyChain.Audit
