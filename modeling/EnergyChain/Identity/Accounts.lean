import EnergyChain.Identity.Lifecycle
import EnergyChain.Identity.RoleIndex

/-!
# x/identity: identities and accounts

Identities are told apart by the strings of their addresses. An account has
more than one such string, since a bech32 address may be written in lower or
in upper case, so an account is registered once only if it is spelled in one
way.
-/

namespace EnergyChain.Identity

variable (authority : Bytes) (decode : AddressDecoder)

/-- An address in upper case stands for the account of its lower-case form. -/
def CaseInsensitive : Prop :=
  ∀ address account, toLower address = address → decode address = .ok account →
    decode (toUpper address) = .ok account

/-- The identity is stored under the address and belongs to the account. -/
def StoredFor (store : KVStore) (account address : Bytes) (i : IdentityRecord) : Prop :=
  getIdentity store address = .ok (some i) ∧ decode i.address = .ok account

/-- After the messages no account has two identities, and an account whose
identity was revoked has no active one. -/
structure OnePerAccount (ms : List (Context × Msg)) : Prop where
  unique : ∀ account a a' i i',
    StoredFor decode ((deliver authority).run (genesisStore defaultGenesis) ms) account a i →
    StoredFor decode ((deliver authority).run (genesisStore defaultGenesis) ms) account a' i' →
    a = a'
  revoked : ∀ pre ctx msg post, ms = pre ++ (ctx, .revokeIdentity msg) :: post →
    (deliver authority).Accepts ((deliver authority).run (genesisStore defaultGenesis) pre)
      (ctx, .revokeIdentity msg) →
    ∀ account, decode msg.address = .ok account → ∀ a i,
      StoredFor decode ((deliver authority).run (genesisStore defaultGenesis) ms) account a i →
      i.status ≠ statusActive

def registeredAddresses (hist : List (Context × Msg)) : List Bytes :=
  hist.filterMap fun
    | (_, .registerIdentity msg) => some msg.address
    | _ => none

/-- No account is registered under two spellings. -/
def OneSpelling (addresses : List Bytes) : Prop :=
  ∀ a ∈ addresses, ∀ a' ∈ addresses, ∀ account, decode a = .ok account →
    decode a' = .ok account → a = a'

/-! ### What a store keeps of a history -/

/-- The status is one that the handlers write; JSON keeps both. -/
def IdentityRecord.StatusKnown (i : IdentityRecord) : Prop :=
  i.status = statusActive ∨ i.status = statusRevoked

theorem IdentityRecord.StatusKnown.coerced {i : IdentityRecord} (h : i.StatusKnown) :
    i.coerced.StatusKnown ∧ i.coerced.status = i.status := by
  have hstatus : i.coerced.status = i.status := by
    rcases h with h | h
    · rw [IdentityRecord.coerced, h]
      exact coerceUTF8_of_valid validUTF8_statusActive
    · rw [IdentityRecord.coerced, h]
      exact coerceUTF8_of_valid validUTF8_statusRevoked
  exact ⟨by rwa [IdentityRecord.StatusKnown, hstatus], hstatus⟩

/-- The addresses with an identity are those registered, and the identities
that were revoked are so still. -/
structure Tracks (store : KVStore) (hist : List (Context × Msg)) : Prop where
  stores : Stores IdentityRecord.StatusKnown store
  registered : ∀ a, (∃ i, identityAt store a = some i) ↔ a ∈ registeredAddresses hist
  revoked : ∀ ctx msg, (ctx, Msg.revokeIdentity msg) ∈ hist →
    ∃ i, identityAt store msg.address = some i ∧ i.status = statusRevoked

/-- An accepted message stores an identity under its address: a first one when
it registers, and else one that is revoked if the one before was or the
message revokes it. -/
theorem deliver_accept_status {store : KVStore} (h : Stores IdentityRecord.StatusKnown store)
    {m : Context × Msg} (hacc : (deliver authority).Accepts store m) :
    ∃ i : IdentityRecord, i.StatusKnown ∧ i.address = m.2.address ∧
      (deliver authority store m).1 = setIdentity store i ∧
      ((∃ msg, m.2 = .registerIdentity msg ∧ identityAt store m.2.address = none) ∨
        (∀ msg, m.2 ≠ .registerIdentity msg) ∧
          (∃ i₀, identityAt store m.2.address = some i₀ ∧
            (i₀.status = statusRevoked → i.status = statusRevoked)) ∧
          ∀ msg, m.2 = .revokeIdentity msg → i.status = statusRevoked) := by
  rcases deliver_cases authority store m with ⟨e, he⟩ | ⟨ctx, msg, rfl, -, hreg, hok⟩ |
    ⟨ctx, msg, i₀, rfl, hget, -, hok⟩ | ⟨ctx, msg, i₀, rfl, -, hget, -, hok⟩
  · obtain ⟨r, hr⟩ := hacc
    simp [he] at hr
  · have hnone : identityAt store msg.address = none := by simpa [h.isRegistered] using hreg
    exact ⟨msg.identity ctx, Or.inl rfl, rfl, by rw [hok], Or.inl ⟨msg, rfl, hnone⟩⟩
  · rw [h.getIdentity] at hget
    have hat := Except.ok.inj hget
    obtain ⟨haddr, hstatus⟩ := h.of_identityAt hat
    exact ⟨msg.updated ctx i₀, hstatus, haddr, by rw [hok],
      Or.inr ⟨by simp, ⟨i₀, hat, id⟩, by simp⟩⟩
  · rw [h.getIdentity] at hget
    have hat := Except.ok.inj hget
    obtain ⟨haddr, -⟩ := h.of_identityAt hat
    exact ⟨{ i₀ with status := statusRevoked, updatedAt := ctx.blockTime }, Or.inr rfl, haddr,
      by rw [hok], Or.inr ⟨by simp, ⟨i₀, hat, fun _ => rfl⟩, fun _ _ => rfl⟩⟩

theorem registeredAddresses_append (hist : List (Context × Msg)) (m : Context × Msg) :
    registeredAddresses (hist ++ [m]) = registeredAddresses hist ++ registeredAddresses [m] :=
  List.filterMap_append

theorem registeredAddresses_other {m : Context × Msg} (h : ∀ msg, m.2 ≠ .registerIdentity msg) :
    registeredAddresses [m] = [] := by
  obtain ⟨ctx, msg | msg | msg⟩ := m
  · exact absurd rfl (h msg)
  · rfl
  · rfl

theorem Tracks.accept {store : KVStore} {hist : List (Context × Msg)} (h : Tracks store hist)
    {m : Context × Msg} (hacc : (deliver authority).Accepts store m)
    (haddress : ValidUTF8 m.2.address) :
    Tracks (deliver authority store m).1 (hist ++ [m]) := by
  obtain ⟨i, hknown, haddr, hok, hcases⟩ := deliver_accept_status authority h.stores hacc
  have hat : ∀ a, identityAt (setIdentity store i) a =
      if a = m.2.address then some i.coerced else identityAt store a := by
    intro a
    rw [identityAt_setIdentity, haddr]
  rw [hok]
  refine ⟨h.stores.setIdentity (haddr ▸ haddress) hknown.coerced.1, fun a => ?_,
    fun ctx msg hmem => ?_⟩
  · rw [hat, registeredAddresses_append, List.mem_append, ← h.registered]
    rcases hcases with ⟨msg, hm, hnone⟩ | ⟨hother, ⟨i₀, hi₀, -⟩, -⟩
    · have hregistered : registeredAddresses [m] = [m.2.address] := by
        obtain ⟨ctx, x⟩ := m
        obtain rfl : x = _ := hm
        rfl
      rw [hregistered, List.mem_singleton]
      split_ifs with ha
      · simp [ha]
      · simp [ha]
    · rw [registeredAddresses_other hother]
      split_ifs with ha
      · simp [ha, hi₀]
      · simp
  · rw [hat]
    rcases List.mem_append.mp hmem with hmem | hmem
    · obtain ⟨j, hj, hstatus⟩ := h.revoked ctx msg hmem
      split_ifs with ha
      · refine ⟨i.coerced, rfl, hknown.coerced.2.trans ?_⟩
        rw [ha] at hj
        rcases hcases with ⟨-, -, hnone⟩ | ⟨-, ⟨i₀, hi₀, hkeeps⟩, -⟩
        · cases hnone.symm.trans hj
        · obtain rfl := Option.some.inj (hi₀.symm.trans hj)
          exact hkeeps hstatus
      · exact ⟨j, hj, hstatus⟩
    · obtain rfl := List.mem_singleton.mp hmem
      refine ⟨i.coerced, if_pos rfl, hknown.coerced.2.trans ?_⟩
      rcases hcases with ⟨msg', hm, -⟩ | ⟨-, -, hrevoked⟩
      · cases hm
      · exact hrevoked msg rfl

/-! ### Runs -/

theorem genesisStore_tracks : Tracks (genesisStore defaultGenesis) [] := by
  have hnone : ∀ a, (genesisStore defaultGenesis).get (getIdentityKey a) = none := by
    intro a
    refine OrderedStore.get_set_of_ne _ ?_ _
    simp [getIdentityKey, identityKey, identityParamsKey, ascii]
  refine ⟨fun a v hv => ?_, fun a => ?_, by simp⟩
  · rw [hnone] at hv
    cases hv
  · simp [identityAt, hnone, registeredAddresses]

variable {decode}

theorem run_tracks (hdecode : PrintableAddresses decode) {ms : List (Context × Msg)}
    (hbasic : ∀ m ∈ ms, m.2.validateBasic decode = .ok ()) :
    Tracks ((deliver authority).run (genesisStore defaultGenesis) ms)
      ((deliver authority).history (genesisStore defaultGenesis) ms) := by
  refine (deliver authority).run_induction (P := Tracks) ms genesisStore_tracks ?_ ?_
  · intro store hist h m hm hacc
    obtain ⟨account, haccount⟩ := address_of_validateBasic (hbasic m hm)
    exact h.accept authority hacc (hdecode.validUTF8 haccount)
  · intro store hist h m hm hrej
    rw [deliver_reject authority hrej]
    exact h

theorem storedFor_iff {store : KVStore} {hist : List (Context × Msg)} (h : Tracks store hist)
    {account a : Bytes} {i : IdentityRecord} :
    StoredFor decode store account a i ↔
      identityAt store a = some i ∧ decode a = .ok account := by
  rw [StoredFor, h.stores.getIdentity, Except.ok.injEq]
  constructor
  · rintro ⟨hat, haccount⟩
    exact ⟨hat, (h.stores.of_identityAt hat).1 ▸ haccount⟩
  · rintro ⟨hat, haccount⟩
    exact ⟨hat, (h.stores.of_identityAt hat).1.symm ▸ haccount⟩

/-- Every state of a run has one identity for each account, and none active
for a revoked one, exactly when no account is registered under two spellings. -/
theorem onePerAccount_iff (hdecode : PrintableAddresses decode) (ms : List (Context × Msg))
    (hbasic : ∀ m ∈ ms, m.2.validateBasic decode = .ok ()) :
    (∀ pre post, ms = pre ++ post → OnePerAccount authority decode pre) ↔
      OneSpelling decode (registeredAddresses
        ((deliver authority).history (genesisStore defaultGenesis) ms)) := by
  constructor
  · intro h a ha a' ha' account haccount haccount'
    have htracks := run_tracks authority hdecode hbasic
    obtain ⟨i, hi⟩ := (htracks.registered a).mpr ha
    obtain ⟨i', hi'⟩ := (htracks.registered a').mpr ha'
    exact (h ms [] (by simp)).unique account a a' i i' ((storedFor_iff htracks).mpr ⟨hi, haccount⟩)
      ((storedFor_iff htracks).mpr ⟨hi', haccount'⟩)
  · rintro hspelling pre post rfl
    have htracks := run_tracks authority hdecode fun m hm => hbasic m (List.mem_append_left _ hm)
    have hunique : ∀ account a a' i i',
        StoredFor decode ((deliver authority).run (genesisStore defaultGenesis) pre) account a i →
        StoredFor decode ((deliver authority).run (genesisStore defaultGenesis) pre) account a' i' →
        a = a' := by
      intro account a a' i i' hi hi'
      obtain ⟨hat, haccount⟩ := (storedFor_iff htracks).mp hi
      obtain ⟨hat', haccount'⟩ := (storedFor_iff htracks).mp hi'
      have hregistered : ∀ b, b ∈ registeredAddresses
          ((deliver authority).history (genesisStore defaultGenesis) pre) →
          b ∈ registeredAddresses
            ((deliver authority).history (genesisStore defaultGenesis) (pre ++ post)) := by
        intro b hb
        rw [Handler.history_append, registeredAddresses, List.filterMap_append]
        exact List.mem_append_left _ hb
      exact hspelling a (hregistered a ((htracks.registered a).mp ⟨i, hat⟩)) a'
        (hregistered a' ((htracks.registered a').mp ⟨i', hat'⟩)) account haccount haccount'
    refine ⟨hunique, ?_⟩
    rintro before ctx msg after rfl hacc account haccount a i hi hactive
    obtain ⟨j, hj, hrevoked⟩ := htracks.revoked ctx msg ((deliver authority).mem_history hacc)
    have haddr := hunique account a msg.address i j hi
      ((storedFor_iff htracks).mpr ⟨hj, haccount⟩)
    obtain ⟨hat, -⟩ := (storedFor_iff htracks).mp hi
    rw [haddr, hj] at hat
    rw [← Option.some.inj hat, hrevoked] at hactive
    exact absurd hactive (by decide)

/-- A decoder that knows both spellings of two addresses. -/
def twoSpellings : AddressDecoder := fun address =>
  if address = sampleAddress ∨ address = toUpper sampleAddress then .ok (List.replicate 20 1)
  else if address = otherAddress ∨ address = toUpper otherAddress then
    .ok ((List.range 20).map (Fin.ofNat 256))
  else .error (ascii "decoding bech32 failed")

theorem twoSpellings_printable : PrintableAddresses twoSpellings := by
  intro address account h
  unfold twoSpellings at h
  split_ifs at h with haddr haddr
  · rcases haddr with rfl | rfl <;> decide +kernel
  · rcases haddr with rfl | rfl <;> decide +kernel

theorem twoSpellings_caseInsensitive : CaseInsensitive twoSpellings := by
  intro address account hlower h
  unfold twoSpellings at h
  split_ifs at h with haddr haddr
  · rcases haddr with rfl | rfl
    · rw [← Except.ok.inj h]
      decide +kernel
    · exact absurd hlower (by decide +kernel)
  · rcases haddr with rfl | rfl
    · rw [← Except.ok.inj h]
      decide +kernel
    · exact absurd hlower (by decide +kernel)

/-- Accounts are registered under the spellings, and one is revoked. -/
def registrations (spellings : List Bytes) : List (Context × Msg) :=
  let ctx : Context := { blockHeight := 7, blockTime := 1700000000, txBytes := [] }
  (spellings.map fun address => (ctx, .registerIdentity
    { creator := sampleAddress, address, name := ascii "grid", role := ascii "meter"
      metadata := [] })) ++
    [(ctx, .revokeIdentity { creator := sampleAddress, address := sampleAddress, reason := [] })]

/-- Two accounts, each under one spelling; the first is revoked. -/
theorem onePerAccount_registrations :
    OnePerAccount sampleAddress twoSpellings (registrations [sampleAddress, otherAddress]) := by
  refine (onePerAccount_iff sampleAddress twoSpellings_printable _ (by decide +kernel)).mpr ?_ _ []
    (List.append_nil _).symm
  have hregistered : registeredAddresses ((deliver sampleAddress).history
      (genesisStore defaultGenesis) (registrations [sampleAddress, otherAddress])) =
        [sampleAddress, otherAddress] := by
    decide +kernel
  rw [hregistered]
  intro a ha a' ha' account haccount haccount'
  have hdiffer : twoSpellings sampleAddress ≠ twoSpellings otherAddress := by decide +kernel
  have hsame := haccount.trans haccount'.symm
  simp only [List.mem_cons, List.not_mem_nil, or_false] at ha ha'
  rcases ha with rfl | rfl <;> rcases ha' with rfl | rfl
  · rfl
  · exact absurd hsame hdiffer
  · exact absurd hsame.symm hdiffer
  · rfl

/-- The upper-case spelling is registered a second time. -/
theorem upperCase_registered_again :
    ¬ ∀ (authority : Bytes) (decode : AddressDecoder), PrintableAddresses decode →
      CaseInsensitive decode → ∀ ms : List (Context × Msg),
      (∀ m ∈ ms, m.2.validateBasic decode = .ok ()) → OnePerAccount authority decode ms := by
  intro h
  have hone := h sampleAddress twoSpellings twoSpellings_printable twoSpellings_caseInsensitive
    (registrations [sampleAddress, toUpper sampleAddress]) (by decide +kernel)
  have hactive : ∃ i : IdentityRecord, StoredFor twoSpellings ((deliver sampleAddress).run
      (genesisStore defaultGenesis) (registrations [sampleAddress, toUpper sampleAddress]))
      (List.replicate 20 1) (toUpper sampleAddress) i ∧ i.status = statusActive :=
    ⟨{ address := toUpper sampleAddress, name := ascii "grid", role := ascii "meter"
       status := statusActive, metadata := [], registeredAt := 1700000000
       updatedAt := 1700000000 }, ⟨by decide +kernel, by decide +kernel⟩, rfl⟩
  obtain ⟨i, hi, hstatus⟩ := hactive
  exact hone.revoked ((registrations [sampleAddress, toUpper sampleAddress]).take 2) _ _ [] rfl
    (by decide +kernel) _ (by decide +kernel) _ i hi hstatus

end EnergyChain.Identity
