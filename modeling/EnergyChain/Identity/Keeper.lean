import EnergyChain.Foundations.Fallible
import EnergyChain.Identity.Types

/-!
# x/identity: store keys and keeper

An identity is stored under its address and marked in the index of its role.
Reading a value that does not unmarshal panics.
-/

namespace EnergyChain.Identity

/-- Prefix for identity by address. -/
def identityKey : Bytes := [0x01]
/-- Prefix for role index: `role | 0x00 | address`. -/
def identityByRoleKey : Bytes := [0x02]

def identityParamsKey : Bytes := ascii "identity_params"

def getIdentityKey (address : Bytes) : Bytes := identityKey ++ address

/-- `0x02 | role | 0x00 | address`. -/
def getIdentityByRoleKey (role address : Bytes) : Bytes :=
  identityByRoleKey ++ role ++ [0x00] ++ address

def getIdentityByRolePrefixKey (role : Bytes) : Bytes := identityByRoleKey ++ role ++ [0x00]

/-! ### Params -/

def setParams (store : KVStore) (params : Params) : KVStore :=
  store.set identityParamsKey (marshal params)

def getParams (store : KVStore) : Params :=
  match store.get identityParamsKey with
  | none => defaultParams
  | some bz => bz.unmarshal.getD defaultParams

/-! ### IdentityRecord CRUD -/

def setIdentity (store : KVStore) (identity : IdentityRecord) : KVStore :=
  (store.set (getIdentityKey identity.address) (marshal identity)).set
    (getIdentityByRoleKey identity.role identity.address) (.raw [0x01])

def readIdentity (bz : StoredValue) : Except HandlerError IdentityRecord :=
  match (bz.unmarshal : Option IdentityRecord) with
  | some identity => .ok identity
  | none => .error .panic

def getIdentity (store : KVStore) (address : Bytes) : Except HandlerError (Option IdentityRecord) :=
  match store.get (getIdentityKey address) with
  | none => .ok none
  | some bz => (readIdentity bz).map some

def deleteIdentity (store : KVStore) (address : Bytes) : Except HandlerError KVStore := do
  match ← getIdentity store address with
  | none => return store
  | some identity =>
    return (store.delete (getIdentityKey address)).delete
      (getIdentityByRoleKey identity.role address)

/-! ### Queries -/

/-- The key that is left after the prefix is the address. -/
def getIdentitiesByRole (store : KVStore) (role : Bytes) :
    Except HandlerError (List IdentityRecord) := do
  let pre := getIdentityByRolePrefixKey role
  let identities ← (store.prefixIterator pre).mapM fun e => getIdentity store (e.1.drop pre.length)
  return identities.filterMap id

def getAllIdentities (store : KVStore) : Except HandlerError (List IdentityRecord) :=
  (store.prefixIterator identityKey).mapM fun e => readIdentity e.2

def isRegistered (store : KVStore) (address : Bytes) : Bool := store.has (getIdentityKey address)

/-- An active identity with the role. -/
def hasRole (store : KVStore) (address role : Bytes) : Except HandlerError Bool := do
  match ← getIdentity store address with
  | none => return false
  | some identity => return identity.role == role && identity.status == statusActive

/-! ### Genesis -/

def initGenesis (store : KVStore) (gs : GenesisState) : KVStore :=
  gs.identities.foldl setIdentity (setParams store gs.params)

def exportGenesis (store : KVStore) : Except HandlerError GenesisState := do
  return { identities := ← getAllIdentities store, params := getParams store }

/-! ### Keys -/

@[simp] theorem getIdentityKey_inj {a a' : Bytes} :
    getIdentityKey a = getIdentityKey a' ↔ a = a' := by
  simp [getIdentityKey]

theorem getIdentityByRoleKey_inj {r r' a a' : Bytes} (h : (0 : Byte) ∉ a) (h' : (0 : Byte) ∉ a') :
    getIdentityByRoleKey r a = getIdentityByRoleKey r' a' ↔ r = r' ∧ a = a' := by
  simpa [getIdentityByRoleKey, identityByRoleKey] using append_sep_inj_right (p := r) (q := r') h h'

/-! ### What the writes leave alone -/

section Frames

variable (store : KVStore)

theorem get_setIdentity_identityKey (i : IdentityRecord) (address : Bytes) :
    (setIdentity store i).get (getIdentityKey address) =
      if address = i.address then some (marshal i) else store.get (getIdentityKey address) := by
  have hne : getIdentityKey address ≠ getIdentityByRoleKey i.role i.address := fun h => by
    simp [getIdentityKey, identityKey, getIdentityByRoleKey, identityByRoleKey] at h
  rw [setIdentity, OrderedStore.get_set_of_ne _ hne, OrderedStore.get_set]
  simp

theorem get_setIdentity_roleKey (i : IdentityRecord) {k : Bytes} (hk : identityByRoleKey <+: k) :
    (setIdentity store i).get k =
      if k = getIdentityByRoleKey i.role i.address then some (.raw [0x01]) else store.get k := by
  have hne : k ≠ getIdentityKey i.address := by
    rintro rfl
    simp [getIdentityKey, identityKey, identityByRoleKey] at hk
  rw [setIdentity, OrderedStore.get_set]
  split_ifs
  · rfl
  · exact OrderedStore.get_set_of_ne _ hne _

theorem getParams_setIdentity (i : IdentityRecord) :
    getParams (setIdentity store i) = getParams store := by
  have hget : (setIdentity store i).get identityParamsKey = store.get identityParamsKey := by
    rw [setIdentity, OrderedStore.get_set_of_ne _ (by
      simp [identityParamsKey, ascii, getIdentityByRoleKey, identityByRoleKey]),
      OrderedStore.get_set_of_ne _ (by
      simp [identityParamsKey, ascii, getIdentityKey, identityKey])]
  simp only [getParams, hget]

end Frames

/-! ### What is stored -/

/-- The identity stored under an address, if it can be read. -/
def identityAt (store : KVStore) (address : Bytes) : Option IdentityRecord :=
  (store.get (getIdentityKey address)).bind StoredValue.unmarshal

/-- What is stored under an address is an identity of that address with the
property. -/
def Stores (P : IdentityRecord → Prop) (store : KVStore) : Prop :=
  ∀ address v, store.get (getIdentityKey address) = some v →
    ∃ i : IdentityRecord, v.unmarshal = some i ∧ i.address = address ∧ P i

namespace Stores

variable {P : IdentityRecord → Prop} {store : KVStore}

theorem getIdentity (h : Stores P store) (address : Bytes) :
    getIdentity store address = .ok (identityAt store address) := by
  unfold Identity.getIdentity identityAt
  cases hv : store.get (getIdentityKey address) with
  | none => rfl
  | some v =>
    obtain ⟨i, hi, -, -⟩ := h address v hv
    simp [readIdentity, hi, Except.map]

theorem isRegistered (h : Stores P store) (address : Bytes) :
    isRegistered store address = (identityAt store address).isSome := by
  unfold Identity.isRegistered identityAt OrderedStore.has
  cases hv : store.get (getIdentityKey address) with
  | none => rfl
  | some v =>
    obtain ⟨i, hi, -, -⟩ := h address v hv
    simp [hi]

theorem of_identityAt (h : Stores P store) {address : Bytes} {i : IdentityRecord}
    (hi : identityAt store address = some i) : i.address = address ∧ P i := by
  obtain ⟨v, hv, hread⟩ := Option.bind_eq_some_iff.mp hi
  obtain ⟨i', hi', haddr, hp⟩ := h address v hv
  obtain rfl : i' = i := Option.some.inj (hi'.symm.trans hread)
  exact ⟨haddr, hp⟩

theorem setIdentity (h : Stores P store) {i : IdentityRecord} (haddr : ValidUTF8 i.address)
    (hp : P i.coerced) : Stores P (setIdentity store i) := by
  intro address v hv
  rw [get_setIdentity_identityKey] at hv
  split_ifs at hv with heq
  · obtain rfl := Option.some.inj hv
    exact ⟨i.coerced, by simp, (coerceUTF8_of_valid haddr).trans heq.symm, hp⟩
  · exact h address v hv

end Stores

theorem identityAt_setIdentity (store : KVStore) (i : IdentityRecord) (address : Bytes) :
    identityAt (setIdentity store i) address =
      if address = i.address then some i.coerced else identityAt store address := by
  unfold identityAt
  rw [get_setIdentity_identityKey]
  split_ifs <;> simp

end EnergyChain.Identity
