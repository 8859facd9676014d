import EnergyChain.Audit.Types

/-!
# x/audit: store keys and keeper

A log is stored under its ID and marked in three indexes. Unlike the other
modules, reading a value that does not unmarshal panics.
-/

namespace EnergyChain.Audit

/-- Primary: `0x01 | id(8)`. -/
def auditLogKey : Bytes := [0x01]
/-- Index: `0x02 | actor | 0x00 | id(8)`. -/
def auditByActorKey : Bytes := [0x02]
/-- Index: `0x03 | event_type | 0x00 | id(8)`. -/
def auditByTypeKey : Bytes := [0x03]
def auditCounterKey : Bytes := [0x04]
/-- Index: `0x05 | timestamp(8) | id(8)`. -/
def auditByTimeKey : Bytes := [0x05]
def paramsKey : Bytes := [0x06]

def getAuditLogKey (id : UInt64) : Bytes := auditLogKey ++ uint64Bytes id

def getAuditByActorPrefixKey (actor : Bytes) : Bytes := auditByActorKey ++ actor ++ [0x00]

def getAuditByActorKey (actor : Bytes) (id : UInt64) : Bytes :=
  auditByActorKey ++ actor ++ [0x00] ++ uint64Bytes id

def getAuditByTypePrefixKey (eventType : Bytes) : Bytes := auditByTypeKey ++ eventType ++ [0x00]

def getAuditByTypeKey (eventType : Bytes) (id : UInt64) : Bytes :=
  auditByTypeKey ++ eventType ++ [0x00] ++ uint64Bytes id

def getAuditByTimeKey (timestamp : Int64) (id : UInt64) : Bytes :=
  auditByTimeKey ++ uint64Bytes timestamp.toUInt64 ++ uint64Bytes id

def getAuditByTimePrefixKey (timestamp : Int64) : Bytes :=
  auditByTimeKey ++ uint64Bytes timestamp.toUInt64

def getAuditByTimeRangeEndKey (toTimestamp : Int64) : Bytes :=
  auditByTimeKey ++ uint64Bytes (toTimestamp + 1).toUInt64

/-- `binary.BigEndian.Uint64`, which needs eight bytes. -/
def bytesToUint64 (bz : Bytes) : Except Failure UInt64 :=
  if bz.length < 8 then .error .panic else .ok (UInt64.ofNat (ofBigEndian (bz.take 8)))

/-! ### Counter -/

def getNextID (store : KVStore) : UInt64 :=
  match store.get auditCounterKey with
  | none => 1
  | some bz => bz.toUint64 + 1

def incrementCounter (store : KVStore) (id : UInt64) : KVStore :=
  store.set auditCounterKey (.raw (uint64Bytes id))

/-! ### Params -/

def setParams (store : KVStore) (params : Params) : KVStore := store.set paramsKey (marshal params)

/-- A stored value that has to unmarshal. -/
def mustUnmarshal {α : Type} [GoJson α] (bz : StoredValue) : Except Failure α :=
  match (bz.unmarshal : Option α) with
  | some x => .ok x
  | none => .error .panic

def getParams (store : KVStore) : Except Failure Params :=
  match store.get paramsKey with
  | none => .ok defaultParams
  | some bz => mustUnmarshal bz

/-! ### Audit logs -/

def recordAuditLog (store : KVStore) (log : AuditLog) : KVStore :=
  (((store.set (getAuditLogKey log.id) (marshal log)).set
    (getAuditByActorKey log.actor log.id) (.raw [0x01])).set
    (getAuditByTypeKey log.eventType log.id) (.raw [0x01])).set
    (getAuditByTimeKey log.timestamp log.id) (.raw [0x01])

def getAuditLog (store : KVStore) (id : UInt64) : Except Failure (Option AuditLog) :=
  match store.get (getAuditLogKey id) with
  | none => .ok none
  | some bz => (mustUnmarshal bz).map some

/-- The loop shared by the index queries over a prefix store: the key that is
left after the prefix starts with the ID. -/
def getAuditLogsByIndex (store : KVStore) (pre : Bytes) : Except Failure (List AuditLog) := do
  let logs ← (store.prefixIterator pre).mapM fun e => do
    getAuditLog store (← bytesToUint64 (e.1.drop pre.length))
  return logs.filterMap id

def getAuditLogsByActor (store : KVStore) (actor : Bytes) : Except Failure (List AuditLog) :=
  getAuditLogsByIndex store (getAuditByActorPrefixKey actor)

def getAuditLogsByType (store : KVStore) (eventType : Bytes) : Except Failure (List AuditLog) :=
  getAuditLogsByIndex store (getAuditByTypePrefixKey eventType)

def getAuditLogsByTimeRange (store : KVStore) (fromTime toTime : Int64) :
    Except Failure (List AuditLog) := do
  let logs ← (store.iterator (getAuditByTimePrefixKey fromTime)
      (getAuditByTimeRangeEndKey toTime)).mapM fun e =>
    if e.1.length < auditByTimeKey.length + 16 then pure none
    else do getAuditLog store (← bytesToUint64 (e.1.drop (auditByTimeKey.length + 8)))
  return logs.filterMap id

def getAllLogs (store : KVStore) : Except Failure (List AuditLog) :=
  (store.prefixIterator auditLogKey).mapM fun e => mustUnmarshal e.2

/-! ### Genesis -/

def initGenesis (store : KVStore) (gs : GenesisState) : KVStore :=
  let store := gs.logs.foldl recordAuditLog (setParams store gs.params)
  if gs.counter > 0 then incrementCounter store gs.counter else store

def exportGenesis (store : KVStore) : Except Failure GenesisState := do
  let logs ← getAllLogs store
  let counter : UInt64 := match store.get auditCounterKey with
    | none => 0
    | some bz => bz.toUint64
  return { logs, counter, params := ← getParams store }

/-! ### Keys -/

@[simp] theorem getAuditLogKey_inj {id id' : UInt64} :
    getAuditLogKey id = getAuditLogKey id' ↔ id = id' := by
  simp only [getAuditLogKey, List.append_cancel_left_eq]
  exact uint64Bytes_injective.eq_iff

theorem head_key (s : Bytes) (t : Int64) (id : UInt64) :
    (getAuditLogKey id).head? = some 0x01 ∧ (getAuditByActorKey s id).head? = some 0x02 ∧
    (getAuditByTypeKey s id).head? = some 0x03 ∧ auditCounterKey.head? = some 0x04 ∧
    (getAuditByTimeKey t id).head? = some 0x05 ∧ paramsKey.head? = some 0x06 :=
  ⟨rfl, rfl, rfl, rfl, rfl, rfl⟩

/-! ### What the writes leave alone -/

section Frames

variable (store : KVStore)

theorem get_recordAuditLog_of_head (log : AuditLog) {k : Bytes}
    (h : k.head? = some 0x04 ∨ k.head? = some 0x06) :
    (recordAuditLog store log).get k = store.get k := by
  obtain ⟨h1, h2, -⟩ := head_key log.actor log.timestamp log.id
  obtain ⟨-, -, h3, -, h5, -⟩ := head_key log.eventType log.timestamp log.id
  have hne : ∀ {k' : Bytes} {b : Byte}, k'.head? = some b → b ≠ 0x04 → b ≠ 0x06 → k ≠ k' := by
    rintro k' b hb hb4 hb6 rfl
    rcases h with h | h <;> simp_all
  rw [recordAuditLog, OrderedStore.get_set_of_ne _ (hne h5 (by decide) (by decide)),
    OrderedStore.get_set_of_ne _ (hne h3 (by decide) (by decide)),
    OrderedStore.get_set_of_ne _ (hne h2 (by decide) (by decide)),
    OrderedStore.get_set_of_ne _ (hne h1 (by decide) (by decide))]

theorem get_recordAuditLog_logKey (log : AuditLog) (id : UInt64) :
    (recordAuditLog store log).get (getAuditLogKey id) =
      if id = log.id then some (marshal log) else store.get (getAuditLogKey id) := by
  have hne : ∀ {k' : Bytes} {b : Byte}, k'.head? = some b → b ≠ 0x01 → getAuditLogKey id ≠ k' := by
    rintro k' b hb hb1 rfl
    exact hb1 (Option.some.inj (hb.symm.trans (head_key [] 0 id).1))
  obtain ⟨-, h2, -⟩ := head_key log.actor log.timestamp log.id
  obtain ⟨-, -, h3, -, h5, -⟩ := head_key log.eventType log.timestamp log.id
  rw [recordAuditLog, OrderedStore.get_set_of_ne _ (hne h5 (by decide)),
    OrderedStore.get_set_of_ne _ (hne h3 (by decide)),
    OrderedStore.get_set_of_ne _ (hne h2 (by decide)), OrderedStore.get_set]
  simp

@[simp] theorem get_incrementCounter_logKey (id id' : UInt64) :
    (incrementCounter store id).get (getAuditLogKey id') = store.get (getAuditLogKey id') :=
  OrderedStore.get_set_of_ne _ (by simp [getAuditLogKey, auditLogKey, auditCounterKey]) _

@[simp] theorem get_incrementCounter_params (id : UInt64) :
    (incrementCounter store id).get paramsKey = store.get paramsKey :=
  OrderedStore.get_set_of_ne _ (by decide) _

@[simp] theorem getNextID_incrementCounter (id : UInt64) :
    getNextID (incrementCounter store id) = id + 1 := by
  simp [getNextID, incrementCounter]

end Frames

theorem getAuditLog_congr {s t : KVStore} {id : UInt64}
    (h : s.get (getAuditLogKey id) = t.get (getAuditLogKey id)) :
    getAuditLog s id = getAuditLog t id := by
  simp only [getAuditLog, h]

theorem getAuditLog_recordAuditLog (store : KVStore) (log : AuditLog) (id : UInt64) :
    getAuditLog (recordAuditLog store log) id =
      if id = log.id then .ok (some log.coerced) else getAuditLog store id := by
  split_ifs with h
  · simp [getAuditLog, get_recordAuditLog_logKey, h, mustUnmarshal, Except.map]
  · exact getAuditLog_congr (by rw [get_recordAuditLog_logKey, if_neg h])

end EnergyChain.Audit
