import EnergyChain.Audit.Keeper
import EnergyChain.Foundations.MessageRuns

/-!
# x/audit: message server

A message is checked against the allowed auditors and the data size and then
recorded under the next ID. The digest of the transaction bytes is taken with
a hash function that is a parameter. Emitted events are left out; nothing in
the module reads them.
-/

namespace EnergyChain.Audit

variable (sha256 : Bytes → Bytes)

def isAllowedAuditor (store : KVStore) (address : Bytes) : Except Failure Bool := do
  let params ← getParams store
  if params.allowedAuditors.length = 0 then return true
  else return params.allowedAuditors.any fun allowed => allowed == address

/-- `fmt.Sprintf("%X", bz)`. -/
def upperHex (bz : Bytes) : Bytes :=
  (hexEncode bz).map fun b => if 97 ≤ b ∧ b ≤ 102 then b - 32 else b

/-- The digest of the transaction; empty outside of one. -/
def txHash (ctx : Context) : Bytes :=
  if ctx.txBytes.length > 0 then upperHex (sha256 ctx.txBytes) else []

/-- The log of a message under an ID. -/
def MsgRecordAudit.log (ctx : Context) (msg : MsgRecordAudit) (id : UInt64) : AuditLog :=
  { id, eventType := msg.eventType, actor := msg.creator, target := msg.target
    action := msg.action, data := msg.data, blockHeight := ctx.blockHeight
    timestamp := ctx.blockTime, txHash := txHash sha256 ctx }

@[simp] theorem MsgRecordAudit.log_id (ctx : Context) (msg : MsgRecordAudit) (id : UInt64) :
    (msg.log sha256 ctx id).id = id := rfl

def recordAuditMsg (ctx : Context) (store : KVStore) (msg : MsgRecordAudit) :
    KVStore × Except Failure Unit :=
  match isAllowedAuditor store msg.creator with
  | .error e => (store, .error e)
  | .ok false => (store, .error (.error (ascii "address " ++ msg.creator ++
      ascii " is not an allowed auditor")))
  | .ok true =>
    match getParams store with
    | .error e => (store, .error e)
    | .ok params =>
      if params.maxDataSize > 0 ∧ (msg.data.length : ℤ) > params.maxDataSize.toInt then
        (store, .error (.error (ascii "data size " ++ decimal msg.data.length ++
          ascii " exceeds maximum " ++ decimalInt params.maxDataSize.toInt)))
      else
        let id := getNextID store
        (incrementCounter (recordAuditLog store (msg.log sha256 ctx id)) id, .ok ())

/-- The message server: one message in the context of its block. -/
def deliver : Handler KVStore (Context × MsgRecordAudit) Failure Unit := fun store m =>
  recordAuditMsg sha256 m.1 store m.2

/-- The store of a chain started from a genesis state. -/
def genesisStore (gs : GenesisState) : KVStore := initGenesis OrderedStore.empty gs

/-- A message fails without a write, or is recorded under the next ID. -/
theorem deliver_cases (store : KVStore) (m : Context × MsgRecordAudit) :
    (∃ e, deliver sha256 store m = (store, .error e)) ∨
    deliver sha256 store m = (incrementCounter (recordAuditLog store
      (m.2.log sha256 m.1 (getNextID store))) (getNextID store), .ok ()) := by
  simp only [deliver, recordAuditMsg]
  rcases isAllowedAuditor store m.2.creator with e | b
  · exact Or.inl ⟨e, rfl⟩
  · cases b with
    | false => exact Or.inl ⟨_, rfl⟩
    | true =>
      cases getParams store with
      | error e => exact Or.inl ⟨e, rfl⟩
      | ok params =>
        dsimp only
        split_ifs
        · exact Or.inl ⟨_, rfl⟩
        · exact Or.inr rfl

theorem deliver_reject {store : KVStore} {m : Context × MsgRecordAudit}
    (h : ¬ (deliver sha256).Accepts store m) : (deliver sha256 store m).1 = store := by
  rcases deliver_cases sha256 store m with ⟨e, he⟩ | hok
  · rw [he]
  · exact absurd ⟨_, congrArg Prod.snd hok⟩ h

theorem deliver_accept {store : KVStore} {m : Context × MsgRecordAudit}
    (h : (deliver sha256).Accepts store m) :
    (deliver sha256 store m).1 = incrementCounter (recordAuditLog store
      (m.2.log sha256 m.1 (getNextID store))) (getNextID store) := by
  obtain ⟨r, hr⟩ := h
  rcases deliver_cases sha256 store m with ⟨e, he⟩ | hok
  · simp [he] at hr
  · rw [hok]

end EnergyChain.Audit
