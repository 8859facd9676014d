import EnergyChain.Energy.Keeper
import EnergyChain.Energy.MerkleRoot

/-!
# x/energy: message server

Both handlers check the submitter first and write nothing before their last
check has passed. Emitted events are left out; nothing in the module reads
them.
-/

namespace EnergyChain.Energy

variable (keccak256 : Bytes → Bytes)

def notAllowed (submitter : Bytes) : Bytes :=
  ascii "address " ++ submitter ++ ascii " is not an allowed submitter"

def submitEnergyDataMsg (ctx : Context) (store : KVStore) (msg : MsgSubmitEnergyData) :
    KVStore × Except Bytes MsgResponse :=
  if !isAllowedSubmitter store msg.submitter then (store, .error (notAllowed msg.submitter))
  else
    let (store, id) := generateID store
    let data : EnergyData :=
      { id, category := msg.category, submitter := msg.submitter, dataHash := msg.dataHash
        metadata := msg.metadata, blockHeight := ctx.blockHeight, timestamp := ctx.blockTime }
    (submitEnergyData store data, .ok (.submitEnergyData id))

/-- Body of the loop over the items of a batch; also returns the ID it drew. -/
def submitItem (ctx : Context) (msg : MsgBatchSubmit) (store : KVStore) (item : BatchItem) :
    KVStore × Bytes :=
  let (store, id) := generateID store
  let data : EnergyData :=
    { id, category := msg.category, submitter := msg.submitter, dataHash := item.dataHash
      metadata := item.metadata, blockHeight := ctx.blockHeight, timestamp := ctx.blockTime }
  (submitEnergyData store data, id)

def submitItems (ctx : Context) (msg : MsgBatchSubmit) (store : KVStore) : KVStore :=
  msg.items.foldl (fun store item => (submitItem ctx msg store item).1) store

def batchSubmitMsg (ctx : Context) (store : KVStore) (msg : MsgBatchSubmit) :
    KVStore × Except Bytes MsgResponse :=
  if !isAllowedSubmitter store msg.submitter then (store, .error (notAllowed msg.submitter))
  else
    let params := getParams store
    if UInt32.ofNat msg.items.length > params.maxBatchSize then
      (store, .error (ascii "batch size " ++ decimal msg.items.length ++ ascii " exceeds maximum " ++
        decimal params.maxBatchSize.toNat))
    else
      match verifyMerkleRoot keccak256 msg.items msg.merkleRoot with
      | .error e => (store, .error (ascii "merkle root verification failed: " ++ e))
      | .ok () =>
        let (store, batchID) := generateID store
        let store := submitItems ctx msg store
        let batch : BatchSubmission :=
          { id := batchID, submitter := msg.submitter, category := msg.category
            dataCount := UInt32.ofNat msg.items.length, merkleRoot := msg.merkleRoot
            timestamp := ctx.blockTime }
        (submitBatch store batch, .ok (.batchSubmit batchID (UInt32.ofNat msg.items.length)))

/-- The message server: one message in the context of its block. -/
def deliver : Handler KVStore (Context × Msg) Bytes MsgResponse := fun store m =>
  match m with
  | (ctx, .submitEnergyData msg) => submitEnergyDataMsg ctx store msg
  | (ctx, .batchSubmit msg) => batchSubmitMsg keccak256 ctx store msg

/-- The store of a chain started from the default genesis. -/
def genesisStore : KVStore := initGenesis OrderedStore.empty defaultGenesis

/-! ### The identifiers drawn -/

/-- The IDs `generateID` returns inside the loop over the items. -/
def itemIDs (ctx : Context) (msg : MsgBatchSubmit) : KVStore → List BatchItem → List Bytes
  | _, [] => []
  | store, item :: rest =>
    (submitItem ctx msg store item).2 :: itemIDs ctx msg (submitItem ctx msg store item).1 rest

/-- The IDs handed out while one message is handled. -/
def drawnIDs (store : KVStore) (m : Context × Msg) : List Bytes :=
  if (deliver keccak256).Accepts store m then
    match m with
    | (_, .submitEnergyData _) => [(generateID store).2]
    | (ctx, .batchSubmit msg) =>
      (generateID store).2 :: itemIDs ctx msg (generateID store).1 msg.items
  else []

/-- The IDs handed out during a run, in the order they were drawn. -/
def drawnIDsOfRun : KVStore → List (Context × Msg) → List Bytes
  | _, [] => []
  | store, m :: ms =>
    drawnIDs keccak256 store m ++ drawnIDsOfRun (deliver keccak256 store m).1 ms

end EnergyChain.Energy
