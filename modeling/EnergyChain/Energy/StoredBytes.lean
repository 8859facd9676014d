import EnergyChain.Energy.GenesisRestart

/-!
# x/energy: the bytes of a stored record

A Go string holds any bytes, a JSON string only text: what is not UTF-8 in a
submitted string is replaced when the record is stored. The index keys keep
the raw bytes, so a record and its index entry can disagree.
-/

namespace EnergyChain.Energy

variable (keccak256 : Bytes → Bytes)

/-- The record under the ID has the strings of the message, byte for byte. -/
def StoredByteForByte (store : KVStore) (msg : MsgSubmitEnergyData) (id : Bytes) : Prop :=
  ∃ d, getEnergyData store id = some d ∧ d.category = msg.category ∧
    d.dataHash = msg.dataHash ∧ d.metadata = msg.metadata

theorem getEnergyData_of_accepted {store : KVStore} {ctx : Context} {msg : MsgSubmitEnergyData}
    {id : Bytes}
    (hok : (deliver keccak256 store (ctx, .submitEnergyData msg)).2 = .ok (.submitEnergyData id)) :
    getEnergyData (deliver keccak256 store (ctx, .submitEnergyData msg)).1 id =
      some { id, category := coerceUTF8 msg.category, submitter := coerceUTF8 msg.submitter
             dataHash := coerceUTF8 msg.dataHash, metadata := coerceUTF8 msg.metadata
             blockHeight := ctx.blockHeight, timestamp := ctx.blockTime } := by
  simp only [deliver, submitEnergyDataMsg] at hok ⊢
  split_ifs at hok ⊢ with hallowed
  have hid : (generateID store).2 = id := by simpa using hok
  have hvalid : coerceUTF8 id = id := coerceUTF8_of_valid (hid ▸ validUTF8_energyID _)
  have hread := getEnergyData_submitEnergyData_self (generateID store).1
    { id, category := msg.category, submitter := msg.submitter, dataHash := msg.dataHash
      metadata := msg.metadata, blockHeight := ctx.blockHeight, timestamp := ctx.blockTime }
  simp only [EnergyData.coerced, hvalid] at hread
  simpa only [hid] using hread

/-- In whatever state an accepted submission is handled, its strings are stored byte for
byte when and only when they are valid UTF-8. -/
theorem storedByteForByte_iff {store : KVStore} {ctx : Context} {msg : MsgSubmitEnergyData}
    {id : Bytes}
    (hok : (deliver keccak256 store (ctx, .submitEnergyData msg)).2 = .ok (.submitEnergyData id)) :
    StoredByteForByte (deliver keccak256 store (ctx, .submitEnergyData msg)).1 msg id ↔
      ValidUTF8 msg.category ∧ ValidUTF8 msg.dataHash ∧ ValidUTF8 msg.metadata := by
  have hread := getEnergyData_of_accepted keccak256 hok
  constructor
  · rintro ⟨d, hd, hcategory, hhash, hmetadata⟩
    obtain rfl := Option.some.inj (hread.symm.trans hd)
    exact ⟨coerceUTF8_eq_self_iff.mp hcategory, coerceUTF8_eq_self_iff.mp hhash,
      coerceUTF8_eq_self_iff.mp hmetadata⟩
  · rintro ⟨hcategory, hhash, hmetadata⟩
    exact ⟨_, hread, coerceUTF8_of_valid hcategory, coerceUTF8_of_valid hhash,
      coerceUTF8_of_valid hmetadata⟩

def hashSubmission (dataHash : Bytes) : MsgSubmitEnergyData :=
  { submitter := sampleAddress, category := ascii "meter", dataHash
    metadata := ascii "\x7b\"period\":\"2024-01\"\x7d" }

def submissionContext : Context := { blockHeight := 7, blockTime := 1700000000, txBytes := [] }

/-- The hex text of a hash is stored as it is. -/
theorem storedByteForByte_hexText :
    (deliver id genesisStore (submissionContext,
        .submitEnergyData (hashSubmission (ascii "e3b0c442")))).2 =
      .ok (.submitEnergyData (energyID 1)) ∧
    StoredByteForByte (deliver id genesisStore (submissionContext,
        .submitEnergyData (hashSubmission (ascii "e3b0c442")))).1
      (hashSubmission (ascii "e3b0c442")) (energyID 1) := by
  have hok : (deliver id genesisStore (submissionContext,
      .submitEnergyData (hashSubmission (ascii "e3b0c442")))).2 =
        .ok (.submitEnergyData (energyID 1)) := by decide +kernel
  exact ⟨hok, (storedByteForByte_iff id hok).mpr (by decide)⟩

/-- The SHA-256 digest of the empty payload, not its hex text. -/
def rawDigest : Bytes :=
  [0xe3, 0xb0, 0xc4, 0x42, 0x98, 0xfc, 0x1c, 0x14, 0x9a, 0xfb, 0xf4, 0xc8, 0x99, 0x6f, 0xb9, 0x24,
    0x27, 0xae, 0x41, 0xe4, 0x64, 0x9b, 0x93, 0x4c, 0xa4, 0x95, 0x99, 0x1b, 0x78, 0x52, 0xb8, 0x55]

/-- A raw digest passes validation and comes back changed. -/
theorem rawDigest_not_stored :
    ¬ ∀ (keccak256 : Bytes → Bytes) (ms : List (Context × Msg)) (ctx : Context)
      (msg : MsgSubmitEnergyData) (id : Bytes),
      msg.validateBasic sampleDecoder = .ok () →
      (deliver keccak256 ((deliver keccak256).run genesisStore ms)
        (ctx, .submitEnergyData msg)).2 = .ok (.submitEnergyData id) →
      StoredByteForByte (deliver keccak256 ((deliver keccak256).run genesisStore ms)
        (ctx, .submitEnergyData msg)).1 msg id := by
  intro h
  let msg := hashSubmission rawDigest
  have hok : (deliver id genesisStore (submissionContext, .submitEnergyData msg)).2 =
      .ok (.submitEnergyData (energyID 1)) := by decide +kernel
  obtain ⟨d, hd, -, hhash, -⟩ := h id [] submissionContext msg (energyID 1) (by decide +kernel) hok
  change getEnergyData (deliver id genesisStore (submissionContext, .submitEnergyData msg)).1
    (energyID 1) = some d at hd
  have hread : (getEnergyData (deliver id genesisStore
      (submissionContext, .submitEnergyData msg)).1 (energyID 1)).map EnergyData.dataHash ≠
        some msg.dataHash := by decide +kernel
  rw [hd] at hread
  exact hread (congrArg some hhash)

end EnergyChain.Energy
