import EnergyChain.Foundations.MessageRuns
import EnergyChain.Identity.Keeper

/-!
# x/identity: message server

Registration and revocation are reserved to the admins, the module authority
and the admin of the parameters; the owner of an identity may update it.
Emitted events are left out; nothing in the module reads them.
-/

namespace EnergyChain.Identity

variable (authority : Bytes)

def isAdmin (store : KVStore) (address : Bytes) : Bool :=
  if address = authority then true
  else
    let params := getParams store
    if params.adminAddress ≠ [] ∧ params.adminAddress = address then true else false

def MsgRegisterIdentity.identity (ctx : Context) (msg : MsgRegisterIdentity) : IdentityRecord :=
  { address := msg.address, name := msg.name, role := msg.role, status := statusActive
    metadata := msg.metadata, registeredAt := ctx.blockTime, updatedAt := ctx.blockTime }

def MsgUpdateIdentity.updated (ctx : Context) (msg : MsgUpdateIdentity) (identity : IdentityRecord) :
    IdentityRecord :=
  { identity with
    name := if msg.name ≠ [] then msg.name else identity.name
    metadata := if msg.metadata ≠ [] then msg.metadata else identity.metadata
    updatedAt := ctx.blockTime }

def registerIdentityMsg (ctx : Context) (store : KVStore) (msg : MsgRegisterIdentity) :
    KVStore × Except HandlerError MsgResponse :=
  if !isAdmin authority store msg.creator then
    (store, .error (.sdk (.unauthorized (ascii "only the admin can register identities"))))
  else if isRegistered store msg.address then
    (store, .error (.sdk (.invalidRequest (ascii "identity already registered: " ++ msg.address))))
  else (setIdentity store (msg.identity ctx), .ok .registerIdentity)

def identityNotFound (address : Bytes) : HandlerError :=
  .sdk (.notFound (ascii "identity not found: " ++ address))

def updateIdentityMsg (ctx : Context) (store : KVStore) (msg : MsgUpdateIdentity) :
    KVStore × Except HandlerError MsgResponse :=
  match getIdentity store msg.address with
  | .error e => (store, .error e)
  | .ok none => (store, .error (identityNotFound msg.address))
  | .ok (some identity) =>
    let isAdmin := isAdmin authority store msg.creator
    let isOwner := msg.creator == msg.address
    if !isAdmin && !isOwner then
      (store, .error (.sdk (.unauthorized (ascii "only admin or identity owner can update"))))
    else (setIdentity store (msg.updated ctx identity), .ok .updateIdentity)

def revokeIdentityMsg (ctx : Context) (store : KVStore) (msg : MsgRevokeIdentity) :
    KVStore × Except HandlerError MsgResponse :=
  if !isAdmin authority store msg.creator then
    (store, .error (.sdk (.unauthorized (ascii "only the admin can revoke identities"))))
  else
    match getIdentity store msg.address with
    | .error e => (store, .error e)
    | .ok none => (store, .error (identityNotFound msg.address))
    | .ok (some identity) =>
      if identity.status = statusRevoked then
        (store, .error (.sdk (.invalidRequest (ascii "identity is already revoked"))))
      else
        (setIdentity store { identity with status := statusRevoked, updatedAt := ctx.blockTime },
          .ok .revokeIdentity)

/-- The message server: one message in the context of its block. -/
def deliver : Handler KVStore (Context × Msg) HandlerError MsgResponse := fun store m =>
  match m with
  | (ctx, .registerIdentity msg) => registerIdentityMsg authority ctx store msg
  | (ctx, .updateIdentity msg) => updateIdentityMsg authority ctx store msg
  | (ctx, .revokeIdentity msg) => revokeIdentityMsg authority ctx store msg

/-- The store of a chain started from a genesis state. -/
def genesisStore (gs : GenesisState) : KVStore := initGenesis OrderedStore.empty gs

/-! ### What a message can do -/

/-- A message is rejected without a write, or stores one identity: a new one of
an address without any, or the one of the address with a few fields changed. -/
theorem deliver_cases (store : KVStore) (m : Context × Msg) :
    (∃ e, deliver authority store m = (store, .error e)) ∨
    (∃ ctx msg, m = (ctx, .registerIdentity msg) ∧ isAdmin authority store msg.creator = true ∧
      isRegistered store msg.address = false ∧
      deliver authority store m = (setIdentity store (msg.identity ctx), .ok .registerIdentity)) ∨
    (∃ ctx msg i, m = (ctx, .updateIdentity msg) ∧ getIdentity store msg.address = .ok (some i) ∧
      (isAdmin authority store msg.creator = true ∨ msg.creator = msg.address) ∧
      deliver authority store m = (setIdentity store (msg.updated ctx i), .ok .updateIdentity)) ∨
    (∃ ctx msg i, m = (ctx, .revokeIdentity msg) ∧ isAdmin authority store msg.creator = true ∧
      getIdentity store msg.address = .ok (some i) ∧ i.status ≠ statusRevoked ∧
      deliver authority store m =
        (setIdentity store { i with status := statusRevoked, updatedAt := ctx.blockTime },
          .ok .revokeIdentity)) := by
  obtain ⟨ctx, msg | msg | msg⟩ := m
  · simp only [deliver, registerIdentityMsg]
    cases hadmin : isAdmin authority store msg.creator with
    | false => exact Or.inl ⟨_, rfl⟩
    | true =>
      cases hregistered : isRegistered store msg.address with
      | true => exact Or.inl ⟨_, rfl⟩
      | false => exact Or.inr (Or.inl ⟨ctx, msg, rfl, hadmin, hregistered, rfl⟩)
  · simp only [deliver, updateIdentityMsg]
    cases hget : getIdentity store msg.address with
    | error e => exact Or.inl ⟨e, rfl⟩
    | ok found =>
      cases found with
      | none => exact Or.inl ⟨_, rfl⟩
      | some i =>
        dsimp only
        split_ifs with hauth
        · exact Or.inl ⟨_, rfl⟩
        · refine Or.inr (Or.inr (Or.inl ⟨ctx, msg, i, rfl, hget, ?_, rfl⟩))
          simp only [Bool.and_eq_true, Bool.not_eq_true', beq_eq_false_iff_ne, not_and_or] at hauth
          simpa using hauth
  · simp only [deliver, revokeIdentityMsg]
    cases hadmin : isAdmin authority store msg.creator with
    | false => exact Or.inl ⟨_, rfl⟩
    | true =>
      cases hget : getIdentity store msg.address with
      | error e => exact Or.inl ⟨e, rfl⟩
      | ok found =>
        cases found with
        | none => exact Or.inl ⟨_, rfl⟩
        | some i =>
          by_cases hstatus : i.status = statusRevoked
          · exact Or.inl ⟨_, if_pos hstatus⟩
          · exact Or.inr (Or.inr (Or.inr ⟨ctx, msg, i, rfl, hadmin, hget, hstatus, if_neg hstatus⟩))

theorem deliver_reject {store : KVStore} {m : Context × Msg}
    (h : ¬ (deliver authority).Accepts store m) : (deliver authority store m).1 = store := by
  rcases deliver_cases authority store m with ⟨e, he⟩ | ⟨ctx, msg, -, -, -, hok⟩ |
    ⟨ctx, msg, i, -, -, -, hok⟩ | ⟨ctx, msg, i, -, -, -, -, hok⟩
  · rw [he]
  all_goals exact absurd ⟨_, congrArg Prod.snd hok⟩ h

end EnergyChain.Identity
