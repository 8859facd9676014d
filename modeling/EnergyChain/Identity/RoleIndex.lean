import EnergyChain.Identity.MsgServer

/-!
# x/identity: the role index

Roles may hold zero bytes, so the keys of one role can lie under the prefix of
another. What is left of such a key has a zero byte, which no address has, and
finds no identity: the lookup behind the index makes the answers exact.
-/

namespace EnergyChain.Identity

variable (authority : Bytes)

/-- A message, or a call of the keeper's `DeleteIdentity` by another module. -/
inductive Operation where
  | deliver (ctx : Context) (msg : Msg)
  | deleteIdentity (address : Bytes)

def perform : Handler KVStore Operation HandlerError Unit := fun store op =>
  match op with
  | .deliver ctx msg =>
    let result := deliver authority store (ctx, msg)
    (result.1, result.2.map fun _ => ())
  | .deleteIdentity address =>
    match deleteIdentity store address with
    | .ok store' => (store', .ok ())
    | .error e => (store, .error e)

/-- For every role the query returns the stored identities with that role,
each once, and no other identity. -/
def RoleIndexExact (store : KVStore) : Prop :=
  ∀ role, ∃ found all, getIdentitiesByRole store role = .ok found ∧
    getAllIdentities store = .ok all ∧
    found.Perm (all.filter fun i => decide (i.role = role))

/-- The address is a plain one, and the role is kept by JSON. -/
def IdentityRecord.Plain (i : IdentityRecord) : Prop :=
  (0 : Byte) ∉ i.address ∧ ValidUTF8 i.address ∧ ValidUTF8 i.role

theorem IdentityRecord.Plain.coerced {i : IdentityRecord} (h : i.Plain) :
    i.coerced.Plain ∧ i.coerced.role = i.role := by
  obtain ⟨hzero, haddr, hrole⟩ := h
  simp only [IdentityRecord.Plain, IdentityRecord.coerced, coerceUTF8_of_valid haddr,
    coerceUTF8_of_valid hrole]
  exact ⟨⟨hzero, haddr, hrole⟩, trivial⟩

/-- The index has a key for each stored identity and no other. -/
structure Indexed (store : KVStore) : Prop where
  stores : Stores IdentityRecord.Plain store
  index : ∀ k, identityByRoleKey <+: k → (store.has k = true ↔
    ∃ address i, identityAt store address = some i ∧ k = getIdentityByRoleKey i.role address)

namespace Indexed

variable {store : KVStore}

theorem zero_notMem (h : Indexed store) {address : Bytes} {i : IdentityRecord}
    (hi : identityAt store address = some i) : (0 : Byte) ∉ address := by
  obtain ⟨haddr, hzero, -⟩ := h.stores.of_identityAt hi
  exact haddr ▸ hzero

theorem setIdentity (h : Indexed store) {i : IdentityRecord} (hi : i.Plain)
    (hrole : ∀ i₀, identityAt store i.address = some i₀ → i₀.role = i.role) :
    Indexed (setIdentity store i) where
  stores := h.stores.setIdentity hi.2.1 hi.coerced.1
  index k hk := by
    have hhas : (Identity.setIdentity store i).has k = true ↔
        k = getIdentityByRoleKey i.role i.address ∨ store.has k = true := by
      rw [OrderedStore.has, get_setIdentity_roleKey store i hk]
      split_ifs with heq <;> simp [heq, OrderedStore.has]
    rw [hhas, h.index k hk]
    simp only [identityAt_setIdentity]
    constructor
    · rintro (rfl | ⟨address, j, hj, rfl⟩)
      · exact ⟨i.address, i.coerced, if_pos rfl, by rw [hi.coerced.2]⟩
      · by_cases haddr : address = i.address
        · subst haddr
          exact ⟨i.address, i.coerced, if_pos rfl, by rw [hi.coerced.2, hrole j hj]⟩
        · exact ⟨address, j, by rwa [if_neg haddr], rfl⟩
    · rintro ⟨address, j, hj, rfl⟩
      split_ifs at hj with haddr
      · refine Or.inl ?_
        rw [← Option.some.inj hj, hi.coerced.2, haddr]
      · exact Or.inr ⟨address, j, hj, rfl⟩

theorem setIdentity_again (h : Indexed store) {address : Bytes} {i j : IdentityRecord}
    (hi : identityAt store address = some i) (haddr : j.address = i.address)
    (hrole : j.role = i.role) : Indexed (Identity.setIdentity store j) := by
  obtain ⟨hat, hplain⟩ := h.stores.of_identityAt hi
  refine h.setIdentity (by rwa [IdentityRecord.Plain, haddr, hrole]) fun i₀ hi₀ => ?_
  rw [haddr, hat, hi] at hi₀
  rw [← Option.some.inj hi₀, hrole]

theorem deleteIdentity (h : Indexed store) (address : Bytes) :
    ∃ store', deleteIdentity store address = .ok store' ∧ Indexed store' := by
  rw [Identity.deleteIdentity, h.stores.getIdentity, except_ok_bind]
  cases hat : identityAt store address with
  | none => exact ⟨store, rfl, h⟩
  | some i =>
    refine ⟨_, rfl, ?_⟩
    have hget : ∀ a, ((store.delete (getIdentityKey address)).delete
        (getIdentityByRoleKey i.role address)).get (getIdentityKey a) =
        if a = address then none else store.get (getIdentityKey a) := by
      intro a
      have hne : getIdentityKey a ≠ getIdentityByRoleKey i.role address := fun heq => by
        simp [getIdentityKey, identityKey, getIdentityByRoleKey, identityByRoleKey] at heq
      rw [OrderedStore.get_delete, if_neg hne, OrderedStore.get_delete]
      simp
    constructor
    · intro a v hv
      rw [hget] at hv
      split_ifs at hv
      exact h.stores a v hv
    · intro k hk
      have hne : k ≠ getIdentityKey address := by
        rintro rfl
        simp [getIdentityKey, identityKey, identityByRoleKey] at hk
      have hhas : ((store.delete (getIdentityKey address)).delete
          (getIdentityByRoleKey i.role address)).has k = true ↔
          k ≠ getIdentityByRoleKey i.role address ∧ store.has k = true := by
        rw [OrderedStore.has, OrderedStore.get_delete, OrderedStore.get_delete, if_neg hne]
        split_ifs with heq <;> simp [heq, OrderedStore.has]
      have hafter : ∀ a, identityAt ((store.delete (getIdentityKey address)).delete
          (getIdentityByRoleKey i.role address)) a =
          if a = address then none else identityAt store a := by
        intro a
        rw [identityAt, hget]
        split_ifs <;> rfl
      rw [hhas, h.index k hk]
      simp only [hafter]
      constructor
      · rintro ⟨hkeep, a, j, hj, rfl⟩
        have ha : a ≠ address := by
          rintro rfl
          rw [hat] at hj
          rw [Option.some.inj hj] at hkeep
          exact hkeep rfl
        exact ⟨a, j, by rwa [if_neg ha], rfl⟩
      · rintro ⟨a, j, hj, rfl⟩
        split_ifs at hj with ha
        refine ⟨fun heq => ha ?_, a, j, hj, rfl⟩
        exact ((getIdentityByRoleKey_inj (h.zero_notMem hj) (h.zero_notMem hat)).mp heq).2

end Indexed

/-! ### Runs -/

theorem genesisStore_indexed : Indexed (genesisStore defaultGenesis) := by
  have hnone : ∀ k, k ≠ identityParamsKey → (genesisStore defaultGenesis).get k = none :=
    fun k hk => OrderedStore.get_set_of_ne _ hk _
  have hidentity : ∀ a, getIdentityKey a ≠ identityParamsKey := fun a => by
    simp [getIdentityKey, identityKey, identityParamsKey, ascii]
  constructor
  · intro a v hv
    rw [hnone _ (hidentity a)] at hv
    cases hv
  · rintro k ⟨rest, rfl⟩
    rw [OrderedStore.has, hnone _ (by simp [identityByRoleKey, identityParamsKey, ascii])]
    simp [identityAt, hnone _ (hidentity _)]

section Runs

variable {decode : AddressDecoder}

theorem address_of_validateAddresses {creator address : Bytes}
    (h : validateAddresses decode creator address = .ok ()) :
    ∃ account, decode address = .ok account := by
  cases haddr : decode address with
  | ok account => exact ⟨account, rfl⟩
  | error e =>
    cases hcreator : decode creator <;>
      simp [validateAddresses, haddr, hcreator, Except.mapError, bind, Except.bind] at h

theorem address_of_validateBasic {m : Msg} (h : m.validateBasic decode = .ok ()) :
    ∃ account, decode m.address = .ok account := by
  cases m with
  | registerIdentity msg =>
    simp only [Msg.validateBasic, MsgRegisterIdentity.validateBasic, except_bind_ok_iff] at h
    obtain ⟨u, haddresses, -⟩ := h
    exact address_of_validateAddresses haddresses
  | updateIdentity msg => exact address_of_validateAddresses h
  | revokeIdentity msg => exact address_of_validateAddresses h

theorem deliver_indexed (hdecode : PrintableAddresses decode) {store : KVStore}
    (h : Indexed store) {ctx : Context} {m : Msg} (hbasic : m.validateBasic decode = .ok ())
    (hrole : ∀ msg, m = .registerIdentity msg → ValidUTF8 msg.role) :
    Indexed (deliver authority store (ctx, m)).1 := by
  obtain ⟨account, haccount⟩ := address_of_validateBasic hbasic
  rcases deliver_cases authority store (ctx, m) with ⟨e, he⟩ | ⟨ctx, msg, hm, -, hreg, hok⟩ |
    ⟨ctx, msg, i, hm, hget, -, hok⟩ | ⟨ctx, msg, i, hm, -, hget, -, hok⟩
  · rwa [he]
  · obtain ⟨rfl, rfl⟩ := Prod.mk.inj hm
    rw [hok]
    have hnone : identityAt store msg.address = none := by simpa [h.stores.isRegistered] using hreg
    refine h.setIdentity ⟨hdecode.zero_notMem haccount, hdecode.validUTF8 haccount,
      hrole msg rfl⟩ fun i₀ hi₀ => ?_
    cases hnone.symm.trans hi₀
  · rw [h.stores.getIdentity] at hget
    rw [hok]
    exact h.setIdentity_again (Except.ok.inj hget) rfl rfl
  · rw [h.stores.getIdentity] at hget
    rw [hok]
    exact h.setIdentity_again (Except.ok.inj hget) rfl rfl

theorem perform_indexed (hdecode : PrintableAddresses decode) {store : KVStore}
    (h : Indexed store) {op : Operation}
    (hbasic : ∀ ctx m, op = .deliver ctx m → m.validateBasic decode = .ok ())
    (hrole : ∀ ctx msg, op = .deliver ctx (.registerIdentity msg) → ValidUTF8 msg.role) :
    Indexed (perform authority store op).1 := by
  cases op with
  | deliver ctx m =>
    refine deliver_indexed authority hdecode h (hbasic ctx m rfl) fun msg hm => ?_
    exact hrole ctx msg (by rw [hm])
  | deleteIdentity address =>
    obtain ⟨store', hok, hindexed⟩ := h.deleteIdentity address
    simpa only [perform, hok] using hindexed

end Runs

/-! ### The query -/

namespace Indexed

variable {store : KVStore}

theorem rolePrefix_isPrefix {role r address : Bytes} (haddr : (0 : Byte) ∉ address) :
    getIdentityByRolePrefixKey role <+: getIdentityByRoleKey r address ↔
      role = r ∨ role ++ [0x00] <+: r := by
  simpa [getIdentityByRolePrefixKey, getIdentityByRoleKey, identityByRoleKey] using
    append_sep_isPrefix_iff (p := role) (q := r) haddr

/-- What the loop finds through a key under the prefix of a role is the
identity of that key, and only if it has the role. -/
theorem lookup_of_prefix (h : Indexed store) {role k : Bytes}
    (hpre : getIdentityByRolePrefixKey role <+: k) (hk : store.has k = true) (i : IdentityRecord) :
    identityAt store (k.drop (getIdentityByRolePrefixKey role).length) = some i ↔
      identityAt store i.address = some i ∧ i.role = role ∧
        k = getIdentityByRoleKey i.role i.address := by
  have htable : identityByRoleKey <+: k :=
    ((List.prefix_append _ _).trans (List.prefix_append _ _)).trans hpre
  obtain ⟨address, j, hj, rfl⟩ := (h.index k htable).mp hk
  have hzero := h.zero_notMem hj
  constructor
  · intro hi
    rcases (rolePrefix_isPrefix hzero).mp hpre with rfl | ⟨rest, hrest⟩
    · have hdrop : (getIdentityByRoleKey j.role address).drop
          (getIdentityByRolePrefixKey j.role).length = address := List.drop_left
      rw [hdrop, hj] at hi
      obtain rfl := Option.some.inj hi
      obtain ⟨rfl, -⟩ := h.stores.of_identityAt hj
      exact ⟨hj, rfl, rfl⟩
    · -- The key of a longer role leaves a zero byte, which no address has.
      have hdrop : (getIdentityByRoleKey j.role address).drop
          (getIdentityByRolePrefixKey role).length = rest ++ 0x00 :: address := by
        have hkey : getIdentityByRoleKey j.role address =
            getIdentityByRolePrefixKey role ++ (rest ++ 0x00 :: address) := by
          simp [getIdentityByRoleKey, getIdentityByRolePrefixKey, ← hrest]
        rw [hkey, List.drop_left]
      rw [hdrop] at hi
      exact absurd (by simp) (h.zero_notMem hi)
  · rintro ⟨hi, rfl, hkey⟩
    have hdrop : (getIdentityByRoleKey i.role i.address).drop
        (getIdentityByRolePrefixKey i.role).length = i.address := List.drop_left
    rw [hkey, hdrop]
    exact hi

theorem getAllIdentities (h : Indexed store) :
    ∃ all, getAllIdentities store = .ok all ∧ all.Nodup ∧
      ∀ i, i ∈ all ↔ identityAt store i.address = some i := by
  have hread : ∀ e ∈ store.prefixIterator identityKey, ∃ i : IdentityRecord,
      readIdentity e.2 = .ok i ∧ e.2.unmarshal = some i ∧ e.1 = getIdentityKey i.address ∧
        identityAt store i.address = some i := by
    rintro ⟨k, v⟩ he
    obtain ⟨⟨address, rfl⟩, hv⟩ := (OrderedStore.mem_prefixIterator store).mp he
    obtain ⟨i, hi, rfl, -⟩ := h.stores address v hv
    refine ⟨i, by simp [readIdentity, hi], hi, rfl, ?_⟩
    exact Option.bind_eq_some_iff.mpr ⟨v, hv, hi⟩
  refine ⟨(store.prefixIterator identityKey).filterMap fun e => e.2.unmarshal, ?_, ?_, fun i => ?_⟩
  · refine mapM_eq_filterMap fun e he => ?_
    obtain ⟨i, hok, hi, -⟩ := hread e he
    exact ⟨i, hok, hi⟩
  · refine OrderedStore.nodup_filterMap_of_key (store.prefixIterator_keys_nodup _)
      (fun i => getIdentityKey i.address) fun e he i hi => ?_
    obtain ⟨i', -, hi', hkey, -⟩ := hread e he
    rwa [← Option.some.inj (hi'.symm.trans hi)]
  · rw [List.mem_filterMap]
    constructor
    · rintro ⟨e, he, hi⟩
      obtain ⟨i', -, hi', -, hat⟩ := hread e he
      rwa [← Option.some.inj (hi'.symm.trans hi)]
    · intro hat
      obtain ⟨v, hv, hi⟩ := Option.bind_eq_some_iff.mp hat
      exact ⟨(getIdentityKey i.address, v), (OrderedStore.mem_prefixIterator store).mpr
        ⟨List.prefix_append _ _, hv⟩, hi⟩

theorem getIdentitiesByRole (h : Indexed store) (role : Bytes) :
    ∃ found, getIdentitiesByRole store role = .ok found ∧ found.Nodup ∧
      ∀ i, i ∈ found ↔ identityAt store i.address = some i ∧ i.role = role := by
  let pre := getIdentityByRolePrefixKey role
  have hentry : ∀ e ∈ store.prefixIterator pre, ∀ i,
      identityAt store (e.1.drop pre.length) = some i ↔ identityAt store i.address = some i ∧
        i.role = role ∧ e.1 = getIdentityByRoleKey i.role i.address := by
    rintro ⟨k, v⟩ he i
    obtain ⟨hpre, hv⟩ := (OrderedStore.mem_prefixIterator store).mp he
    exact h.lookup_of_prefix hpre (by simp [OrderedStore.has, hv]) i
  refine ⟨(store.prefixIterator pre).filterMap fun e => identityAt store (e.1.drop pre.length),
    ?_, ?_, fun i => ?_⟩
  · rw [Identity.getIdentitiesByRole, mapM_eq_map fun e _ => h.stores.getIdentity _,
      except_ok_bind, List.filterMap_map]
    rfl
  · refine OrderedStore.nodup_filterMap_of_key (store.prefixIterator_keys_nodup _)
      (fun i => getIdentityByRoleKey i.role i.address) fun e he i hi => ?_
    exact ((hentry e he i).mp hi).2.2
  · rw [List.mem_filterMap]
    constructor
    · rintro ⟨e, he, hi⟩
      obtain ⟨hat, hrole, -⟩ := (hentry e he i).mp hi
      exact ⟨hat, hrole⟩
    · rintro ⟨hat, rfl⟩
      have hhas := (h.index _ ((List.prefix_append _ _).trans ((List.prefix_append _ _).trans
        (List.prefix_append _ _)))).mpr ⟨i.address, i, hat, rfl⟩
      obtain ⟨v, hv⟩ := Option.isSome_iff_exists.mp hhas
      have he : (getIdentityByRoleKey i.role i.address, v) ∈ store.prefixIterator pre :=
        (OrderedStore.mem_prefixIterator store).mpr ⟨List.prefix_append _ _, hv⟩
      exact ⟨_, he, (hentry _ he i).mpr ⟨hat, rfl, rfl⟩⟩

theorem exact (h : Indexed store) : RoleIndexExact store := by
  intro role
  obtain ⟨all, hall, hnodup, hmem⟩ := h.getAllIdentities
  obtain ⟨found, hfound, hnodup', hmem'⟩ := h.getIdentitiesByRole role
  refine ⟨found, all, hfound, hall, ?_⟩
  refine (List.perm_ext_iff_of_nodup hnodup' (hnodup.filter _)).mpr fun i => ?_
  rw [hmem', List.mem_filter, hmem, decide_eq_true_iff]

end Indexed

/-- In every state that messages and deletions reach from the default genesis
the role index is exact. -/
theorem roleIndex_exact {decode : AddressDecoder} (hdecode : PrintableAddresses decode)
    (ops : List Operation)
    (hbasic : ∀ ctx m, .deliver ctx m ∈ ops → m.validateBasic decode = .ok ())
    (hroles : ∀ ctx msg, .deliver ctx (.registerIdentity msg) ∈ ops → ValidUTF8 msg.role) :
    RoleIndexExact ((perform authority).run (genesisStore defaultGenesis) ops) := by
  have hindexed := (perform authority).run_invariant (P := Indexed) ops genesisStore_indexed
    fun store h op hop => perform_indexed authority hdecode h
      (fun ctx m heq => hbasic ctx m (heq ▸ hop)) (fun ctx msg heq => hroles ctx msg (heq ▸ hop))
  exact hindexed.exact

/-- A registration with the role, from the account registered. -/
def registration (role : Bytes) : Operation :=
  .deliver { blockHeight := 7, blockTime := 1700000000, txBytes := [] }
    (.registerIdentity { creator := sampleAddress, address := sampleAddress, name := ascii "grid"
                         role, metadata := [] })

/-- A role with a zero byte, deleted and replaced by the part in front of it, which is the
one that finds the identity. -/
theorem roleIndex_exact_registrations :
    RoleIndexExact ((perform sampleAddress).run (genesisStore defaultGenesis)
      [registration (ascii "meter" ++ 0x00 :: ascii "roof"), .deleteIdentity sampleAddress,
        registration (ascii "meter")]) ∧
    (getIdentitiesByRole ((perform sampleAddress).run (genesisStore defaultGenesis)
      [registration (ascii "meter" ++ 0x00 :: ascii "roof"), .deleteIdentity sampleAddress,
        registration (ascii "meter")]) (ascii "meter")).map (List.map IdentityRecord.address) =
      .ok [sampleAddress] := by
  refine ⟨roleIndex_exact sampleAddress sampleDecoder_printable _ ?_ ?_, by decide +kernel⟩
  · intro ctx m hm
    simp only [registration, List.mem_cons, Operation.deliver.injEq, reduceCtorEq,
      List.not_mem_nil, or_false, false_or] at hm
    rcases hm with ⟨-, rfl⟩ | ⟨-, rfl⟩ <;> decide +kernel
  · intro ctx msg hm
    simp only [registration, List.mem_cons, Operation.deliver.injEq, reduceCtorEq,
      Msg.registerIdentity.injEq, List.not_mem_nil, or_false, false_or] at hm
    rcases hm with ⟨-, rfl⟩ | ⟨-, rfl⟩ <;> decide +kernel

end EnergyChain.Identity
