import EnergyChain.Energy.Keys
import EnergyChain.Energy.Types

/-!
# x/energy: keeper

Store operations of the module. A query that finds a key whose value does not
unmarshal behaves as the source does: single lookups report "not found", full
iterations skip the entry.
-/

namespace EnergyChain.Energy

/-! ### ID generation -/

/-- The stored counter, zero before the first ID is drawn. -/
def dataCounter (store : KVStore) : UInt64 :=
  match store.get dataCounterKey with
  | none => 0
  | some bz => bz.toUint64

/-- The counter advances modulo `2 ^ 64` and is stored before the ID is used. -/
def generateID (store : KVStore) : KVStore × Bytes :=
  let seq := dataCounter store + 1
  (store.set dataCounterKey (.raw (uint64Bytes seq)), energyID seq.toNat)

/-! ### EnergyData CRUD -/

def submitEnergyData (store : KVStore) (data : EnergyData) : KVStore :=
  ((store.set (getEnergyDataKey data.id) (marshal data)).set
    (getEnergyByCategoryKey data.category data.id) (.raw data.id)).set
    (getEnergyBySubmitterKey data.submitter data.id) (.raw data.id)

def getEnergyData (store : KVStore) (id : Bytes) : Option EnergyData :=
  match store.get (getEnergyDataKey id) with
  | none => none
  | some bz => bz.unmarshal

/-- The loop shared by the index queries: look up the ID each index entry holds. -/
def getEnergyDataByIndex (store : KVStore) (pre : Bytes) : List EnergyData :=
  (store.prefixIterator pre).filterMap fun e => getEnergyData store e.2.toBytes

def getEnergyDataByCategory (store : KVStore) (category : Bytes) : List EnergyData :=
  getEnergyDataByIndex store (getEnergyByCategoryPrefixKey category)

def getEnergyDataBySubmitter (store : KVStore) (submitter : Bytes) : List EnergyData :=
  getEnergyDataByIndex store (getEnergyBySubmitterPrefixKey submitter)

def getAllData (store : KVStore) : List EnergyData :=
  (store.prefixIterator energyDataKeyPrefix).filterMap fun e => e.2.unmarshal

/-! ### Batch CRUD -/

def submitBatch (store : KVStore) (batch : BatchSubmission) : KVStore :=
  store.set (getBatchSubmissionKey batch.id) (marshal batch)

def getBatch (store : KVStore) (id : Bytes) : Option BatchSubmission :=
  match store.get (getBatchSubmissionKey id) with
  | none => none
  | some bz => bz.unmarshal

def getAllBatches (store : KVStore) : List BatchSubmission :=
  (store.prefixIterator batchSubmissionKeyPrefix).filterMap fun e => e.2.unmarshal

/-! ### Params -/

def setParams (store : KVStore) (params : Params) : KVStore :=
  store.set paramsKey (marshal params)

def getParams (store : KVStore) : Params :=
  match store.get paramsKey with
  | none => defaultParams
  | some bz => bz.unmarshal.getD defaultParams

def isAllowedSubmitter (store : KVStore) (address : Bytes) : Bool :=
  let params := getParams store
  if params.allowedSubmitters.length = 0 then true
  else params.allowedSubmitters.any fun allowed => allowed == address

/-! ### Genesis -/

def initGenesis (store : KVStore) (gs : GenesisState) : KVStore :=
  gs.batches.foldl submitBatch (gs.dataRecords.foldl submitEnergyData (setParams store gs.params))

def exportGenesis (store : KVStore) : GenesisState :=
  { params := getParams store
    dataRecords := getAllData store
    batches := getAllBatches store }

end EnergyChain.Energy
