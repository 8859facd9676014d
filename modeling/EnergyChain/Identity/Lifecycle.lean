import EnergyChain.Identity.MsgServer

/-!
# x/identity: the life of an identity

Handlers never build the record of a registered address anew: they change a
few fields of what is stored. So the role and the date of registration stay,
and a revoked identity stays revoked.
-/

namespace EnergyChain.Identity

variable (authority : Bytes)

def IdentityRecord.ValidStrings (i : IdentityRecord) : Prop :=
  ValidUTF8 i.address ∧ ValidUTF8 i.name ∧ ValidUTF8 i.role ∧ ValidUTF8 i.status ∧
    ValidUTF8 i.metadata

instance (i : IdentityRecord) : Decidable i.ValidStrings :=
  inferInstanceAs (Decidable (ValidUTF8 i.address ∧ ValidUTF8 i.name ∧ ValidUTF8 i.role ∧
    ValidUTF8 i.status ∧ ValidUTF8 i.metadata))

theorem IdentityRecord.coerced_of_valid {i : IdentityRecord} (h : i.ValidStrings) :
    i.coerced = i := by
  obtain ⟨haddr, hname, hrole, hstatus, hmeta⟩ := h
  simp [IdentityRecord.coerced, coerceUTF8_of_valid, *]

/-- Every string of the message that is stored is valid UTF-8. -/
def Msg.ValidStrings : Msg → Prop
  | .registerIdentity msg => ValidUTF8 msg.address ∧ ValidUTF8 msg.name ∧ ValidUTF8 msg.role ∧
      ValidUTF8 msg.metadata
  | .updateIdentity msg => ValidUTF8 msg.name ∧ ValidUTF8 msg.metadata
  | .revokeIdentity _ => True

instance : (m : Msg) → Decidable m.ValidStrings
  | .registerIdentity msg => inferInstanceAs (Decidable (ValidUTF8 msg.address ∧
      ValidUTF8 msg.name ∧ ValidUTF8 msg.role ∧ ValidUTF8 msg.metadata))
  | .updateIdentity msg => inferInstanceAs (Decidable (ValidUTF8 msg.name ∧
      ValidUTF8 msg.metadata))
  | .revokeIdentity _ => isTrue trivial

/-- What every later version of an identity keeps of an earlier one. -/
structure Continues (i i' : IdentityRecord) : Prop where
  role : i'.role = i.role
  registeredAt : i'.registeredAt = i.registeredAt
  revoked : i.status = statusRevoked → i'.status = statusRevoked

theorem Continues.refl (i : IdentityRecord) : Continues i i := ⟨rfl, rfl, id⟩

theorem Continues.trans {i j k : IdentityRecord} (hij : Continues i j) (hjk : Continues j k) :
    Continues i k :=
  ⟨hjk.role.trans hij.role, hjk.registeredAt.trans hij.registeredAt, hjk.revoked ∘ hij.revoked⟩

def OwnerChange (i i' : IdentityRecord) : Prop :=
  i' = { i with name := i'.name, metadata := i'.metadata, updatedAt := i'.updatedAt }

theorem isAdmin_iff {store : KVStore} {address : Bytes} :
    isAdmin authority store address = true ↔ address = authority ∨
      ((getParams store).adminAddress ≠ [] ∧ (getParams store).adminAddress = address) := by
  simp [isAdmin]

theorem validUTF8_statusActive : ValidUTF8 statusActive := by decide

theorem validUTF8_statusRevoked : ValidUTF8 statusRevoked := by decide

/-! ### One message -/

/-- An accepted message stores a valid identity under its own address: a first
one on behalf of an admin, or one that continues what is stored, on behalf of
an admin or with an owner's changes only. -/
theorem deliver_accept {store : KVStore} (h : Stores IdentityRecord.ValidStrings store)
    {m : Context × Msg} (hm : m.2.ValidStrings) (hacc : (deliver authority).Accepts store m) :
    ∃ i : IdentityRecord, i.ValidStrings ∧ i.address = m.2.address ∧
      (deliver authority store m).1 = setIdentity store i ∧
      ((identityAt store i.address = none ∧ isAdmin authority store m.2.creator = true) ∨
        ∃ i₀, identityAt store i.address = some i₀ ∧ Continues i₀ i ∧
          (isAdmin authority store m.2.creator = true ∨
            m.2.creator = m.2.address ∧ OwnerChange i₀ i)) := by
  rcases deliver_cases authority store m with ⟨e, he⟩ | ⟨ctx, msg, rfl, hadmin, hreg, hok⟩ |
    ⟨ctx, msg, i₀, rfl, hget, hauth, hok⟩ | ⟨ctx, msg, i₀, rfl, hadmin, hget, hstatus, hok⟩
  · obtain ⟨r, hr⟩ := hacc
    simp [he] at hr
  · obtain ⟨haddr, hname, hrole, hmeta⟩ := hm
    have hnone : identityAt store msg.address = none := by simpa [h.isRegistered] using hreg
    exact ⟨msg.identity ctx, ⟨haddr, hname, hrole, validUTF8_statusActive, hmeta⟩, rfl, by rw [hok],
      Or.inl ⟨hnone, hadmin⟩⟩
  · obtain ⟨hname, hmeta⟩ := hm
    rw [h.getIdentity] at hget
    have hat := Except.ok.inj hget
    obtain ⟨haddr, hvalid⟩ := h.of_identityAt hat
    obtain ⟨hv1, hv2, hv3, hv4, hv5⟩ := hvalid
    refine ⟨msg.updated ctx i₀, ⟨hv1, ?_, hv3, hv4, ?_⟩, haddr, by rw [hok],
      Or.inr ⟨i₀, (congrArg _ haddr).trans hat, ⟨rfl, rfl, id⟩, hauth.imp_right fun howner =>
        ⟨howner, rfl⟩⟩⟩
    · simp only [MsgUpdateIdentity.updated]
      split_ifs <;> assumption
    · simp only [MsgUpdateIdentity.updated]
      split_ifs <;> assumption
  · rw [h.getIdentity] at hget
    have hat := Except.ok.inj hget
    obtain ⟨haddr, hvalid⟩ := h.of_identityAt hat
    obtain ⟨hv1, hv2, hv3, hv4, hv5⟩ := hvalid
    exact ⟨{ i₀ with status := statusRevoked, updatedAt := ctx.blockTime },
      ⟨hv1, hv2, hv3, validUTF8_statusRevoked, hv5⟩, haddr, by rw [hok],
      Or.inr ⟨i₀, (congrArg _ haddr).trans hat, ⟨rfl, rfl, fun _ => rfl⟩, Or.inl hadmin⟩⟩

theorem deliver_stores {store : KVStore} (h : Stores IdentityRecord.ValidStrings store)
    {m : Context × Msg} (hm : m.2.ValidStrings) :
    Stores IdentityRecord.ValidStrings (deliver authority store m).1 := by
  by_cases hacc : (deliver authority).Accepts store m
  · obtain ⟨i, hi, -, hok, -⟩ := deliver_accept authority h hm hacc
    rw [hok]
    exact h.setIdentity hi.1 (by rwa [IdentityRecord.coerced_of_valid hi])
  · rw [deliver_reject authority hacc]
    exact h

/-- A registered address stays registered, with an identity that continues
the one it has. -/
theorem deliver_continues {store : KVStore} (h : Stores IdentityRecord.ValidStrings store)
    {m : Context × Msg} (hm : m.2.ValidStrings) {address : Bytes} {i : IdentityRecord}
    (hi : identityAt store address = some i) :
    ∃ i', identityAt (deliver authority store m).1 address = some i' ∧ Continues i i' := by
  by_cases hacc : (deliver authority).Accepts store m
  · obtain ⟨j, hj, -, hok, hcases⟩ := deliver_accept authority h hm hacc
    rw [hok, identityAt_setIdentity, IdentityRecord.coerced_of_valid hj]
    split_ifs with haddr
    · refine ⟨j, rfl, ?_⟩
      rw [haddr] at hi
      rcases hcases with ⟨hnone, -⟩ | ⟨i₀, hi₀, hcont, -⟩
      · rw [hnone] at hi
        cases hi
      · rw [hi₀] at hi
        rwa [← Option.some.inj hi]
    · exact ⟨i, hi, Continues.refl i⟩
  · rw [deliver_reject authority hacc]
    exact ⟨i, hi, Continues.refl i⟩

theorem deliver_changes {store : KVStore} (h : Stores IdentityRecord.ValidStrings store)
    {m : Context × Msg} (hm : m.2.ValidStrings) {address : Bytes}
    (hne : (deliver authority store m).1.get (getIdentityKey address) ≠
      store.get (getIdentityKey address)) :
    isAdmin authority store m.2.creator = true ∨ m.2.creator = address ∧
      ∃ i i', identityAt store address = some i ∧
        identityAt (deliver authority store m).1 address = some i' ∧ OwnerChange i i' := by
  by_cases hacc : (deliver authority).Accepts store m
  · obtain ⟨j, hj, hjaddr, hok, hcases⟩ := deliver_accept authority h hm hacc
    rw [hok, get_setIdentity_identityKey] at hne
    have haddr : address = j.address := by
      by_contra hother
      exact hne (if_neg hother)
    rw [hok, identityAt_setIdentity, IdentityRecord.coerced_of_valid hj, if_pos haddr, haddr]
    rcases hcases with ⟨-, hadmin⟩ | ⟨i₀, hi₀, -, hadmin | ⟨howner, hchange⟩⟩
    · exact Or.inl hadmin
    · exact Or.inl hadmin
    · exact Or.inr ⟨howner.trans hjaddr.symm, i₀, j, hi₀, rfl, hchange⟩
  · rw [deliver_reject authority hacc] at hne
    exact absurd rfl hne

/-! ### Runs -/

theorem genesisStore_stores {gs : GenesisState} (hgs : ∀ i ∈ gs.identities, i.ValidStrings) :
    Stores IdentityRecord.ValidStrings (genesisStore gs) := by
  have key : ∀ (is : List IdentityRecord) (store : KVStore), (∀ i ∈ is, i.ValidStrings) →
      Stores IdentityRecord.ValidStrings store →
      Stores IdentityRecord.ValidStrings (is.foldl setIdentity store) := by
    intro is
    induction is with
    | nil => exact fun store _ h => h
    | cons i is ih =>
      intro store hall h
      have hi := hall i List.mem_cons_self
      exact ih _ (fun j hj => hall j (List.mem_cons_of_mem _ hj))
        (h.setIdentity hi.1 (by rwa [IdentityRecord.coerced_of_valid hi]))
  apply key gs.identities _ hgs
  intro address v hv
  have hne : getIdentityKey address ≠ identityParamsKey := by
    simp [getIdentityKey, identityKey, identityParamsKey, ascii]
  rw [setParams, OrderedStore.get_set_of_ne _ hne] at hv
  cases hv

theorem run_stores {store : KVStore} (h : Stores IdentityRecord.ValidStrings store)
    (ms : List (Context × Msg)) (hms : ∀ m ∈ ms, m.2.ValidStrings) :
    Stores IdentityRecord.ValidStrings ((deliver authority).run store ms) :=
  (deliver authority).run_invariant (P := Stores IdentityRecord.ValidStrings) ms h
    fun _ hs m hm => deliver_stores authority hs (hms m hm)

theorem run_continues {store : KVStore} (h : Stores IdentityRecord.ValidStrings store)
    (ms : List (Context × Msg)) (hms : ∀ m ∈ ms, m.2.ValidStrings) {address : Bytes}
    {i : IdentityRecord} (hi : identityAt store address = some i) :
    ∃ i', identityAt ((deliver authority).run store ms) address = some i' ∧ Continues i i' := by
  refine ((deliver authority).run_invariant (P := fun s => Stores IdentityRecord.ValidStrings s ∧
    ∃ i', identityAt s address = some i' ∧ Continues i i') ms ⟨h, i, hi, Continues.refl i⟩ ?_).2
  rintro s ⟨hs, i', hi', hcont⟩ m hm
  obtain ⟨i'', hi'', hcont'⟩ := deliver_continues authority hs (hms m hm) hi'
  exact ⟨deliver_stores authority hs (hms m hm), i'', hi'', hcont.trans hcont'⟩

theorem not_accepts_register {store : KVStore} (h : Stores IdentityRecord.ValidStrings store)
    {address : Bytes} {i : IdentityRecord} (hi : identityAt store address = some i) (ctx : Context)
    {msg : MsgRegisterIdentity} (hmsg : msg.address = address) :
    ¬ (deliver authority).Accepts store (ctx, .registerIdentity msg) := by
  rintro ⟨r, hr⟩
  have hregistered : isRegistered store msg.address = true := by
    rw [h.isRegistered, hmsg, hi, Option.isSome_some]
  simp only [deliver, registerIdentityMsg, hregistered] at hr
  split_ifs at hr

theorem hasRole_of_revoked {store : KVStore} (h : Stores IdentityRecord.ValidStrings store)
    {address : Bytes} {i : IdentityRecord} (hi : identityAt store address = some i)
    (hstatus : i.status = statusRevoked) (role : Bytes) : hasRole store address role = .ok false := by
  have hne : (statusRevoked == statusActive) = false := by decide
  rw [hasRole, h.getIdentity, hi, except_ok_bind]
  simp only [hstatus, hne, Bool.and_false]
  rfl

/-- Registered identities keep their role and date, revoked ones stay revoked;
only admins and owners change an identity, owners within bounds; and rejected
messages change nothing. This holds from every genesis state. -/
theorem identity_lifecycle (gs : GenesisState) (ms : List (Context × Msg))
    (hgs : ∀ i ∈ gs.identities, i.ValidStrings) (hms : ∀ m ∈ ms, m.2.ValidStrings) :
    (∀ pre post, ms = pre ++ post → ∀ address i,
      getIdentity ((deliver authority).run (genesisStore gs) pre) address = .ok (some i) →
      (∃ i', getIdentity ((deliver authority).run (genesisStore gs) ms) address = .ok (some i') ∧
        i'.role = i.role ∧ i'.registeredAt = i.registeredAt ∧
        (i.status = statusRevoked → i'.status = statusRevoked)) ∧
      (i.status = statusRevoked →
        (∀ role, hasRole ((deliver authority).run (genesisStore gs) ms) address role =
          .ok false) ∧
        ∀ ctx msg, msg.address = address → ¬ (deliver authority).Accepts
          ((deliver authority).run (genesisStore gs) ms) (ctx, .registerIdentity msg))) ∧
    ∀ pre m post, ms = pre ++ m :: post →
      let store := (deliver authority).run (genesisStore gs) pre
      let store' := (deliver authority).run (genesisStore gs) (pre ++ [m])
      (∀ address, store'.get (getIdentityKey address) ≠ store.get (getIdentityKey address) →
        (m.2.creator = authority ∨ ((getParams store).adminAddress ≠ [] ∧
          (getParams store).adminAddress = m.2.creator)) ∨
        m.2.creator = address ∧ ∃ i i', getIdentity store address = .ok (some i) ∧
          getIdentity store' address = .ok (some i') ∧ OwnerChange i i') ∧
      (¬ (deliver authority).Accepts store m → store' = store) := by
  have hstores : ∀ pre post, ms = pre ++ post →
      Stores IdentityRecord.ValidStrings ((deliver authority).run (genesisStore gs) pre) := by
    rintro pre post rfl
    exact run_stores authority (genesisStore_stores hgs) pre
      fun m hm => hms m (List.mem_append_left _ hm)
  refine ⟨fun pre post hms' address i hget => ?_, fun pre m post hms' => ⟨fun address hne => ?_,
    fun hrej => ?_⟩⟩
  · have hpre := hstores pre post hms'
    have hall := hstores ms [] (by simp)
    rw [hpre.getIdentity] at hget
    obtain ⟨i', hi', hcont⟩ := run_continues authority hpre post
      (fun m hm => hms m (by rw [hms']; exact List.mem_append_right _ hm)) (Except.ok.inj hget)
    rw [← Handler.run_append, ← hms'] at hi'
    refine ⟨⟨i', by rw [hall.getIdentity, hi'], hcont.role, hcont.registeredAt, hcont.revoked⟩,
      fun hstatus => ⟨fun role => ?_, fun ctx msg hmsg => ?_⟩⟩
    · exact hasRole_of_revoked hall hi' (hcont.revoked hstatus) role
    · exact not_accepts_register authority hall hi' ctx hmsg
  · have hpre := hstores pre (m :: post) hms'
    have hpost := hstores (pre ++ [m]) post (by simp [hms'])
    have hm := hms m (by simp [hms'])
    rw [Handler.run_append] at hne
    rcases deliver_changes authority hpre hm hne with hadmin | ⟨howner, i, i', hi, hi', hchange⟩
    · exact Or.inl ((isAdmin_iff authority).mp hadmin)
    · refine Or.inr ⟨howner, i, i', by rw [hpre.getIdentity, hi], ?_, hchange⟩
      rw [hpost.getIdentity, Handler.run_append]
      exact congrArg Except.ok hi'
  · rw [Handler.run_append]
    exact deliver_reject authority hrej

/-- An admin registers and revokes an identity, and its owner updates it. -/
def revocation : List (Context × Msg) :=
  let ctx : Context := { blockHeight := 7, blockTime := 1700000000, txBytes := [] }
  [(ctx, .registerIdentity { creator := sampleAddress, address := otherAddress, name := ascii "grid"
                             role := ascii "meter", metadata := [] }),
    (ctx, .revokeIdentity { creator := sampleAddress, address := otherAddress, reason := [] }),
    (ctx, .updateIdentity { creator := otherAddress, address := otherAddress, name := ascii "roof"
                            metadata := [] })]

theorem identity_lifecycle_revocation :
    hasRole ((deliver sampleAddress).run (genesisStore defaultGenesis) revocation)
      (otherAddress) (ascii "meter") = .ok false := by
  have hlifecycle := (identity_lifecycle sampleAddress defaultGenesis revocation (by simp
    [defaultGenesis]) (by decide +kernel)).1 (revocation.take 2) (revocation.drop 2)
    (List.take_append_drop 2 revocation).symm
    (otherAddress)
    { address := otherAddress, name := ascii "grid"
      role := ascii "meter", status := statusRevoked, metadata := []
      registeredAt := 1700000000, updatedAt := 1700000000 } (by decide +kernel)
  exact (hlifecycle.2 rfl).1 (ascii "meter")

end EnergyChain.Identity
