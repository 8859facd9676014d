import EnergyChain.Cosmos.Store

/-!
# x/identity: identities, messages and genesis

Roles are defined by the users; the chain does not restrict them. The status
is a plain string that the module manages.
-/

namespace EnergyChain.Identity

def statusActive : Bytes := ascii "active"
def statusRevoked : Bytes := ascii "revoked"

/-- A registered participant. -/
structure IdentityRecord where
  address : Bytes
  name : Bytes
  role : Bytes
  status : Bytes
  metadata : Bytes
  registeredAt : Int64
  updatedAt : Int64
deriving DecidableEq

structure Params where
  adminAddress : Bytes
deriving DecidableEq

def defaultParams : Params := { adminAddress := [] }

structure GenesisState where
  identities : List IdentityRecord
  params : Params

def defaultGenesis : GenesisState := { identities := [], params := defaultParams }

/-- The loop of `GenesisState.Validate`; `seen` has the addresses before index `i`. -/
def validateIdentities (seen : List Bytes) : ℕ → List IdentityRecord → Except Bytes Unit
  | _, [] => .ok ()
  | i, identity :: rest =>
    let name := ascii "identity " ++ identity.address
    if identity.address = [] then
      .error (ascii "identity at index " ++ decimal i ++ ascii " has empty address")
    else if identity.address ∈ seen then
      .error (ascii "duplicate identity address: " ++ identity.address)
    else if identity.name = [] then .error (name ++ ascii " has empty name")
    else if identity.role = [] then .error (name ++ ascii " has empty role")
    else if identity.status = [] then .error (name ++ ascii " has empty status")
    else validateIdentities (identity.address :: seen) (i + 1) rest

def GenesisState.validate (gs : GenesisState) : Except Bytes Unit :=
  validateIdentities [] 0 gs.identities

structure MsgRegisterIdentity where
  creator : Bytes
  address : Bytes
  name : Bytes
  role : Bytes
  metadata : Bytes
deriving DecidableEq

structure MsgUpdateIdentity where
  creator : Bytes
  address : Bytes
  /-- Empty means unchanged. -/
  name : Bytes
  /-- Empty means unchanged. -/
  metadata : Bytes
deriving DecidableEq

structure MsgRevokeIdentity where
  creator : Bytes
  address : Bytes
  reason : Bytes
deriving DecidableEq

inductive Msg where
  | registerIdentity (msg : MsgRegisterIdentity)
  | updateIdentity (msg : MsgUpdateIdentity)
  | revokeIdentity (msg : MsgRevokeIdentity)
deriving DecidableEq

/-- All three responses are empty structs. -/
inductive MsgResponse where
  | registerIdentity
  | updateIdentity
  | revokeIdentity
deriving DecidableEq

/-- The SDK errors a failed check is wrapped in, with the text of the check. -/
inductive SdkError where
  | unauthorized (text : Bytes)
  | notFound (text : Bytes)
  | invalidRequest (text : Bytes)
  | invalidAddress (text : Bytes)
deriving DecidableEq

/-- How a handler fails: with an error, or by a panic of the keeper. -/
inductive HandlerError where
  | sdk (e : SdkError)
  | panic
deriving DecidableEq

/-! ### JSON -/

/-- The identity as it reads back: its strings coerced to UTF-8. -/
def IdentityRecord.coerced (i : IdentityRecord) : IdentityRecord :=
  { i with
    address := coerceUTF8 i.address, name := coerceUTF8 i.name, role := coerceUTF8 i.role
    status := coerceUTF8 i.status, metadata := coerceUTF8 i.metadata }

def Params.coerced (p : Params) : Params := { adminAddress := coerceUTF8 p.adminAddress }

open Json

instance : GoJson IdentityRecord where
  marshal i := .obj ([("address", encodeString i.address), ("name", encodeString i.name),
    ("role", encodeString i.role), ("status", encodeString i.status)] ++
      (omitEmpty "metadata" i.metadata ++ [("registered_at", encodeInt64 i.registeredAt),
        ("updated_at", encodeInt64 i.updatedAt)]))
  unmarshal
    | .obj fields => do
      let address ← decodeString (fields.lookup "address")
      let name ← decodeString (fields.lookup "name")
      let role ← decodeString (fields.lookup "role")
      let status ← decodeString (fields.lookup "status")
      let metadata ← decodeString (fields.lookup "metadata")
      let registeredAt ← decodeInt64 (fields.lookup "registered_at")
      let updatedAt ← decodeInt64 (fields.lookup "updated_at")
      return { address, name, role, status, metadata, registeredAt, updatedAt }
    | _ => none

instance : GoJson Params where
  marshal p := .obj [("admin_address", encodeString p.adminAddress)]
  unmarshal
    | .obj fields => do
      let adminAddress ← decodeString (fields.lookup "admin_address")
      return { adminAddress }
    | _ => none

@[simp] theorem IdentityRecord.unmarshal_marshal (i : IdentityRecord) :
    GoJson.unmarshal (GoJson.marshal i) = some i.coerced := by
  have hmeta : decodeString ((omitEmpty "metadata" i.metadata ++
      [("registered_at", encodeInt64 i.registeredAt),
        ("updated_at", encodeInt64 i.updatedAt)]).lookup "metadata") =
      some (coerceUTF8 i.metadata) := decodeString_lookup_omitEmpty _ _ (by simp [List.lookup_cons])
  simp [GoJson.marshal, GoJson.unmarshal, List.lookup_cons, lookup_omitEmpty_of_ne, hmeta,
    IdentityRecord.coerced]

@[simp] theorem Params.unmarshal_marshal (p : Params) :
    GoJson.unmarshal (GoJson.marshal p) = some p.coerced := by
  simp [GoJson.marshal, GoJson.unmarshal, Params.coerced]

/-! ### Validation -/

/-- The checks of the two addresses that every message starts with. -/
def validateAddresses (accAddressFromBech32 : AddressDecoder) (creator address : Bytes) :
    Except SdkError Unit := do
  let _ ← (accAddressFromBech32 creator).mapError fun e =>
    .invalidAddress (ascii "invalid creator address: " ++ e)
  let _ ← (accAddressFromBech32 address).mapError fun e =>
    .invalidAddress (ascii "invalid identity address: " ++ e)

def MsgRegisterIdentity.validateBasic (accAddressFromBech32 : AddressDecoder)
    (msg : MsgRegisterIdentity) : Except SdkError Unit := do
  validateAddresses accAddressFromBech32 msg.creator msg.address
  if msg.name = [] then throw (.invalidRequest (ascii "name cannot be empty"))
  if msg.role = [] then throw (.invalidRequest (ascii "role cannot be empty"))

def MsgUpdateIdentity.validateBasic (accAddressFromBech32 : AddressDecoder)
    (msg : MsgUpdateIdentity) : Except SdkError Unit :=
  validateAddresses accAddressFromBech32 msg.creator msg.address

def MsgRevokeIdentity.validateBasic (accAddressFromBech32 : AddressDecoder)
    (msg : MsgRevokeIdentity) : Except SdkError Unit :=
  validateAddresses accAddressFromBech32 msg.creator msg.address

theorem nodup_of_validateIdentities {seen : List Bytes} {n : ℕ} {identities : List IdentityRecord}
    (h : validateIdentities seen n identities = .ok ()) :
    (identities.map IdentityRecord.address).Nodup ∧ ∀ i ∈ identities, i.address ∉ seen := by
  induction identities generalizing seen n with
  | nil => simp
  | cons i rest ih =>
    unfold validateIdentities at h
    split_ifs at h with hempty hseen
    obtain ⟨hnodup, hfresh⟩ := ih h
    have hi : i.address ∉ rest.map IdentityRecord.address := by
      intro hmem
      obtain ⟨j, hj, heq⟩ := List.mem_map.mp hmem
      exact hfresh j hj (heq ▸ List.mem_cons_self)
    refine ⟨List.nodup_cons.mpr ⟨hi, hnodup⟩, fun j hj => ?_⟩
    rcases List.mem_cons.mp hj with rfl | hj
    · exact hseen
    · exact fun hmem => hfresh j hj (List.mem_cons_of_mem _ hmem)

theorem GenesisState.nodup_of_validate {gs : GenesisState} (h : gs.validate = .ok ()) :
    (gs.identities.map IdentityRecord.address).Nodup :=
  (nodup_of_validateIdentities h).1

namespace Msg

def creator : Msg → Bytes
  | .registerIdentity msg => msg.creator
  | .updateIdentity msg => msg.creator
  | .revokeIdentity msg => msg.creator

def address : Msg → Bytes
  | .registerIdentity msg => msg.address
  | .updateIdentity msg => msg.address
  | .revokeIdentity msg => msg.address

def validateBasic (accAddressFromBech32 : AddressDecoder) : Msg → Except SdkError Unit
  | .registerIdentity msg => msg.validateBasic accAddressFromBech32
  | .updateIdentity msg => msg.validateBasic accAddressFromBech32
  | .revokeIdentity msg => msg.validateBasic accAddressFromBech32

end Msg

end EnergyChain.Identity
