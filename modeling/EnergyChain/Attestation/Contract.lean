import EnergyChain.Evm.Checked
import EnergyChain.Foundations.MessageRuns

/-!
# EnergyDataAttestation

The registry contract: `attest`, `batchAttest` and its queries, over the
contract's storage as one structure. A failed call leaves the storage as it
was. Events are left out; the contract cannot read them.
-/

namespace EnergyChain.Attestation

/-- `Attestation` -/
structure AttestationRecord where
  dataHash : Bytes32
  submitter : Address
  timestamp : UInt64
  blockNumber : UInt64
  dataType : Bytes
  memo : Bytes
deriving DecidableEq

/-- What a mapping returns under a key never written. -/
def AttestationRecord.zero : AttestationRecord :=
  { dataHash := 0, submitter := Address.zero, timestamp := 0, blockNumber := 0, dataType := []
    memo := [] }

structure Storage where
  totalAttestations : ℕ
  /-- By global auto-increment ID. -/
  attestations : ℕ → AttestationRecord
  hashToId : Bytes32 → ℕ
  submitterAttestations : Address → List ℕ
  typeAttestations : Bytes → List ℕ

def Storage.initial : Storage :=
  { totalAttestations := 0, attestations := fun _ => .zero, hashToId := fun _ => 0
    submitterAttestations := fun _ => [], typeAttestations := fun _ => [] }

/-- Sender and block of a call. -/
structure CallContext where
  sender : Address
  block : Block

/-- The record a hash is stored with; times are cut to 64 bits. -/
def newAttestation (ctx : CallContext) (dataHash : Bytes32) (dataType memo : Bytes) :
    AttestationRecord :=
  { dataHash, submitter := ctx.sender, timestamp := UInt64.ofNat ctx.block.timestamp
    blockNumber := UInt64.ofNat ctx.block.number, dataType, memo }

/-- The writes that `attest` and the loop of `batchAttest` have in common;
returns the new ID. -/
def store (ctx : CallContext) (s : Storage) (dataHash : Bytes32) (dataType memo : Bytes) :
    Except Revert (ℕ × Storage) := do
  let id ← checkedAdd s.totalAttestations 1
  let sender := ctx.sender
  return (id,
    { totalAttestations := id
      attestations := Function.update s.attestations id (newAttestation ctx dataHash dataType memo)
      hashToId := Function.update s.hashToId dataHash id
      submitterAttestations := Function.update s.submitterAttestations sender
        (s.submitterAttestations sender ++ [id])
      typeAttestations := Function.update s.typeAttestations dataType
        (s.typeAttestations dataType ++ [id]) })

def attest (ctx : CallContext) (s : Storage) (dataHash : Bytes32) (dataType memo : Bytes) :
    Except Revert (ℕ × Storage) := do
  require (dataHash ≠ 0) "empty hash"
  require (s.hashToId dataHash = 0) "hash already attested"
  store ctx s dataHash dataType memo

/-- Body of the loop of `batchAttest`. -/
def batchItem (ctx : CallContext) (dataType memo : Bytes) (s : Storage) (h : Bytes32) :
    Except Revert Storage := do
  require (h ≠ 0) "empty hash in batch"
  require (s.hashToId h = 0) "duplicate hash in batch"
  let (_, s) ← store ctx s h dataType memo
  return s

def batchAttest (ctx : CallContext) (s : Storage) (dataHashes : List Bytes32)
    (dataType memo : Bytes) : Except Revert (ℕ × Storage) := do
  require (dataHashes.length > 0) "empty batch"
  require (dataHashes.length ≤ 100) "batch too large"
  let startId ← checkedAdd s.totalAttestations 1
  let s ← dataHashes.foldlM (batchItem ctx dataType memo) s
  return (startId, s)

/-! ### Queries -/

def getAttestation (s : Storage) (id : ℕ) : Except Revert AttestationRecord := do
  require (id > 0 ∧ id ≤ s.totalAttestations) "invalid id"
  return s.attestations id

def verifyByHash (s : Storage) (dataHash : Bytes32) : Bool × AttestationRecord :=
  let id := s.hashToId dataHash
  if id = 0 then (false, .zero) else (true, s.attestations id)

def getAttestationsBySubmitter (s : Storage) (submitter : Address) : List ℕ :=
  s.submitterAttestations submitter

def getAttestationsByType (s : Storage) (dataType : Bytes) : List ℕ := s.typeAttestations dataType

/-! ### Calls -/

inductive Call where
  | attest (dataHash : Bytes32) (dataType memo : Bytes)
  | batchAttest (dataHashes : List Bytes32) (dataType memo : Bytes)

/-- A call that reverts restores the storage. -/
def execute : Handler Storage (CallContext × Call) Revert ℕ := fun s m =>
  let result := match m with
    | (ctx, .attest dataHash dataType memo) => attest ctx s dataHash dataType memo
    | (ctx, .batchAttest dataHashes dataType memo) => batchAttest ctx s dataHashes dataType memo
  match result with
  | .ok (id, s') => (s', .ok id)
  | .error e => (s, .error e)

/-- The records a successful call creates. -/
def attested : CallContext × Call → List AttestationRecord
  | (ctx, .attest dataHash dataType memo) => [newAttestation ctx dataHash dataType memo]
  | (ctx, .batchAttest dataHashes dataType memo) =>
    dataHashes.map fun h => newAttestation ctx h dataType memo

end EnergyChain.Attestation
