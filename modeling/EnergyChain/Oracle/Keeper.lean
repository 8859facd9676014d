import EnergyChain.Oracle.Types

/-!
# x/oracle: store keys and keeper

Each record is stored twice, under its category and timestamp and as the
latest record of its category.
-/

namespace EnergyChain.Oracle

/-- Prefix for historical oracle data. -/
def oracleDataKeyPrefix : Bytes := [0x01]
/-- Prefix for oracle info by address. -/
def oracleInfoKeyPrefix : Bytes := [0x02]
/-- Prefix for latest data per category. -/
def latestDataKeyPrefix : Bytes := [0x03]

def paramsKey : Bytes := ascii "oracle_params"

/-- `0x01 | category | 0x00 | timestamp(8)`. -/
def getOracleDataKey (category : Bytes) (timestamp : Int64) : Bytes :=
  oracleDataKeyPrefix ++ category ++ [0x00] ++ uint64Bytes timestamp.toUInt64

def getOracleDataPrefixByCategory (category : Bytes) : Bytes :=
  oracleDataKeyPrefix ++ category ++ [0x00]

/-- `0x02 | address bytes`. -/
def getOracleKey (address : Bytes) : Bytes := oracleInfoKeyPrefix ++ address

/-- `0x03 | category`. -/
def getLatestDataKey (category : Bytes) : Bytes := latestDataKeyPrefix ++ category

/-! ### Oracle data -/

def setOracleData (store : KVStore) (data : OracleData) : KVStore :=
  (store.set (getOracleDataKey data.category data.timestamp) (marshal data)).set
    (getLatestDataKey data.category) (marshal data)

def getLatestData (store : KVStore) (category : Bytes) : Option OracleData :=
  match store.get (getLatestDataKey category) with
  | none => none
  | some bz => bz.unmarshal

def getDataHistory (store : KVStore) (category : Bytes) (fromTime toTime : Int64) :
    List OracleData :=
  (store.iterator (getOracleDataKey category fromTime)
    (getOracleDataKey category (toTime + 1))).filterMap fun e => e.2.unmarshal

/-! ### Oracle management -/

def addOracle (store : KVStore) (oracle : OracleInfo) : KVStore :=
  store.set (getOracleKey oracle.address) (marshal oracle)

def removeOracle (store : KVStore) (address : Bytes) : KVStore :=
  store.delete (getOracleKey address)

def getOracle (store : KVStore) (address : Bytes) : Option OracleInfo :=
  match store.get (getOracleKey address) with
  | none => none
  | some bz => bz.unmarshal

def isAuthorizedOracle (store : KVStore) (address category : Bytes) : Bool :=
  match getOracle store address with
  | none => false
  | some oracle => oracle.isAuthorizedFor category

def getAllOracles (store : KVStore) : List OracleInfo :=
  (store.prefixIterator oracleInfoKeyPrefix).filterMap fun e => e.2.unmarshal

/-! ### Params -/

def setParams (store : KVStore) (params : Params) : KVStore := store.set paramsKey (marshal params)

def getParams (store : KVStore) : Params :=
  match store.get paramsKey with
  | none => defaultParams
  | some bz => bz.unmarshal.getD defaultParams

/-! ### Genesis -/

def initGenesis (store : KVStore) (gs : GenesisState) : KVStore :=
  gs.data.foldl setOracleData (gs.oracles.foldl addOracle (setParams store gs.params))

def exportGenesis (store : KVStore) : GenesisState :=
  { params := getParams store
    oracles := getAllOracles store
    data := (store.prefixIterator oracleDataKeyPrefix).filterMap fun e => e.2.unmarshal }

/-! ### Keys -/

theorem getOracleDataKey_inj {c c' : Bytes} {t t' : Int64} :
    getOracleDataKey c t = getOracleDataKey c' t' ↔ c = c' ∧ t = t' := by
  have hsplit : c ++ (0x00 : Byte) :: uint64Bytes t.toUInt64 =
      c' ++ 0x00 :: uint64Bytes t'.toUInt64 ↔
      c = c' ∧ uint64Bytes t.toUInt64 = uint64Bytes t'.toUInt64 :=
    append_sep_fixed_inj (by simp)
  rw [uint64Bytes_toUInt64_inj] at hsplit
  simpa [getOracleDataKey, oracleDataKeyPrefix] using hsplit

@[simp] theorem getLatestDataKey_inj {c c' : Bytes} :
    getLatestDataKey c = getLatestDataKey c' ↔ c = c' := by
  simp [getLatestDataKey]

@[simp] theorem getOracleKey_inj {a a' : Bytes} : getOracleKey a = getOracleKey a' ↔ a = a' := by
  simp [getOracleKey]

theorem head_key (c a : Bytes) (t : Int64) :
    (getOracleDataKey c t).head? = some 0x01 ∧ (getOracleKey a).head? = some 0x02 ∧
    (getLatestDataKey c).head? = some 0x03 ∧ paramsKey.head? = some 0x6F :=
  ⟨rfl, rfl, rfl, rfl⟩

theorem oracleDataKeyPrefix_isPrefix_category (c : Bytes) :
    oracleDataKeyPrefix <+: getOracleDataPrefixByCategory c :=
  ⟨c ++ [0x00], by simp [getOracleDataPrefixByCategory]⟩

theorem oracleDataKeyPrefix_isPrefix (c : Bytes) (t : Int64) :
    oracleDataKeyPrefix <+: getOracleDataKey c t :=
  (oracleDataKeyPrefix_isPrefix_category c).trans (List.prefix_append _ _)

theorem getOracleDataPrefix_of_between {c k : Bytes} {t t' : Int64}
    (hlow : getOracleDataKey c t ≤ k) (hhigh : k < getOracleDataKey c t') :
    getOracleDataPrefixByCategory c <+: k := prefix_of_between hlow hhigh

theorem getOracleDataKey_lt_iff {c : Bytes} {t t' : Int64} :
    getOracleDataKey c t < getOracleDataKey c t' ↔ t.toUInt64 < t'.toUInt64 :=
  append_lt_append_iff.trans uint64Bytes_lt_iff

end EnergyChain.Oracle
