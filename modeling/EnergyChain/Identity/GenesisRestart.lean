import EnergyChain.Identity.Lifecycle

/-!
# x/identity: export and import of the genesis state

A reachable store has nothing but the parameters, the identities and one index
entry for each of them. The index is not exported; since an identity keeps its
role, the import writes the same entries again, also where the keys of two
identities happen to agree.
-/

namespace EnergyChain.Identity

variable (authority : Bytes)

def GenesisState.ValidStrings (gs : GenesisState) : Prop :=
  (∀ i ∈ gs.identities, i.ValidStrings) ∧ ValidUTF8 gs.params.adminAddress

instance (gs : GenesisState) : Decidable gs.ValidStrings := inferInstanceAs (Decidable (_ ∧ _))

/-- The state with its identities in the order of their addresses. -/
def GenesisState.sortedByAddress (gs : GenesisState) : GenesisState :=
  { gs with identities := sortBy IdentityRecord.address gs.identities }

/-- What `setIdentity` writes. -/
def identityEntries (i : IdentityRecord) : List (Bytes × StoredValue) :=
  (getIdentityKey i.address, marshal i) ::
    [(getIdentityByRoleKey i.role i.address, .raw [0x01])]

theorem initGenesis_eq_setAll (store : KVStore) (gs : GenesisState) :
    initGenesis store gs =
      (setParams store gs.params).setAll (gs.identities.flatMap identityEntries) :=
  OrderedStore.foldl_setAll identityEntries gs.identities _

/-! ### The export of an import -/

section Export

variable {gs : GenesisState}

theorem prefixIterator_initGenesis (hnodup : (gs.identities.map IdentityRecord.address).Nodup) :
    (initGenesis OrderedStore.empty gs).prefixIterator identityKey =
      gs.sortedByAddress.identities.map fun i => (getIdentityKey i.address, marshal i) := by
  rw [initGenesis_eq_setAll]
  refine OrderedStore.prefixIterator_setAll sortBy_perm ?_ ?_ ?_ ?_
  · exact (sortBy_sorted hnodup).imp fun h => append_lt_append_iff.mpr h
  · intro k hk
    refine OrderedStore.get_set_of_ne _ ?_ _
    rintro rfl
    exact absurd hk (by decide)
  · exact fun i _ => List.prefix_append _ _
  · intro i _ e he hk
    rw [List.mem_singleton.mp he] at hk
    simp [identityKey, getIdentityByRoleKey, identityByRoleKey] at hk

theorem getParams_initGenesis (hvalid : ValidUTF8 gs.params.adminAddress) :
    getParams (initGenesis OrderedStore.empty gs) = gs.params := by
  have hfold : ∀ (is : List IdentityRecord) (store : KVStore),
      getParams (is.foldl setIdentity store) = getParams store := by
    intro is
    induction is with
    | nil => exact fun _ => rfl
    | cons i is ih => exact fun store => (ih _).trans (getParams_setIdentity store i)
  rw [initGenesis, hfold]
  simp [getParams, setParams, Params.coerced, coerceUTF8_of_valid hvalid]

theorem exportGenesis_initGenesis (hnodup : (gs.identities.map IdentityRecord.address).Nodup)
    (hvalid : gs.ValidStrings) :
    exportGenesis (initGenesis OrderedStore.empty gs) = .ok gs.sortedByAddress := by
  have hall : getAllIdentities (initGenesis OrderedStore.empty gs) =
      .ok gs.sortedByAddress.identities := by
    rw [getAllIdentities, prefixIterator_initGenesis hnodup, mapM_ok_iff,
      List.forall₂_map_left_iff, List.forall₂_same]
    intro i hi
    have hmem : i ∈ gs.identities := sortBy_perm.mem_iff.mp hi
    simp [readIdentity, IdentityRecord.coerced_of_valid (hvalid.1 i hmem)]
  rw [exportGenesis, hall, getParams_initGenesis hvalid.2]
  rfl

end Export

/-! ### What determines a reachable store -/

def Stored (store : KVStore) (i : IdentityRecord) : Prop :=
  i.ValidStrings ∧ store.get (getIdentityKey i.address) = some (marshal i)

/-- The store has the default parameters and the entries of the identities it
stores, and no others. -/
structure Determined (store : KVStore) : Prop where
  params : store.get identityParamsKey = some (marshal defaultParams)
  complete : ∀ i, Stored store i → ∀ e ∈ identityEntries i, store.get e.1 = some e.2
  content : ∀ k v, store.get k = some v → k ≠ identityParamsKey →
    ∃ i, Stored store i ∧ (k, v) ∈ identityEntries i

theorem marshal_injective {i j : IdentityRecord} (hi : i.ValidStrings) (hj : j.ValidStrings)
    (h : marshal i = marshal j) : i = j := by
  have hread := congrArg (StoredValue.unmarshal (α := IdentityRecord)) h
  simpa [IdentityRecord.coerced_of_valid hi, IdentityRecord.coerced_of_valid hj] using hread

theorem get_setIdentity_of_mem {store : KVStore} {i : IdentityRecord} {e : Bytes × StoredValue}
    (he : e ∈ identityEntries i) : (setIdentity store i).get e.1 = some e.2 := by
  rcases List.mem_pair.mp he with rfl | rfl
  · rw [get_setIdentity_identityKey, if_pos rfl]
  · exact OrderedStore.get_set_self _ _ _

theorem get_setIdentity_of_notMem {store : KVStore} {i : IdentityRecord} {k : Bytes}
    (hk : k ∉ (identityEntries i).map Prod.fst) : (setIdentity store i).get k = store.get k :=
  OrderedStore.get_setAll_of_notMem hk store

theorem mem_entries_of_shared_key {i j : IdentityRecord} (haddr : j.address ≠ i.address)
    {e : Bytes × StoredValue} (he : e ∈ identityEntries j)
    (hkey : e.1 ∈ (identityEntries i).map Prod.fst) : e ∈ identityEntries i := by
  simp only [identityEntries, List.map_cons, List.map_nil, List.mem_cons, List.not_mem_nil,
    or_false] at hkey
  rcases List.mem_pair.mp he with rfl | rfl
  · rcases hkey with hkey | hkey
    · exact absurd (getIdentityKey_inj.mp hkey) haddr
    · simp [getIdentityKey, identityKey, getIdentityByRoleKey, identityByRoleKey] at hkey
  · rcases hkey with hkey | hkey
    · simp [getIdentityKey, identityKey, getIdentityByRoleKey, identityByRoleKey] at hkey
    · refine List.mem_cons_of_mem _ (List.mem_singleton.mpr ?_)
      exact congrArg (·, StoredValue.raw [0x01]) hkey

namespace Determined

variable {store : KVStore}

theorem stored_of_get (h : Determined store) {address : Bytes} {v : StoredValue}
    (hv : store.get (getIdentityKey address) = some v) :
    ∃ i, Stored store i ∧ i.address = address ∧ v = marshal i := by
  have hne : getIdentityKey address ≠ identityParamsKey := by
    simp [getIdentityKey, identityKey, identityParamsKey, ascii]
  obtain ⟨i, hi, he⟩ := h.content _ v hv hne
  rcases List.mem_pair.mp he with heq | heq
  · obtain ⟨hkey, rfl⟩ := Prod.mk.inj heq
    exact ⟨i, hi, (getIdentityKey_inj.mp hkey).symm, rfl⟩
  · obtain ⟨hkey, -⟩ := Prod.mk.inj heq
    simp [getIdentityKey, identityKey, getIdentityByRoleKey, identityByRoleKey] at hkey

theorem stores (h : Determined store) : Stores IdentityRecord.ValidStrings store := by
  intro address v hv
  obtain ⟨i, hi, haddr, rfl⟩ := h.stored_of_get hv
  exact ⟨i, by simp [IdentityRecord.coerced_of_valid hi.1], haddr, hi.1⟩

theorem identityAt_of_stored {i : IdentityRecord} (hi : Stored store i) :
    identityAt store i.address = some i := by
  simp [identityAt, hi.2, IdentityRecord.coerced_of_valid hi.1]

theorem setIdentity (h : Determined store) {i : IdentityRecord} (hi : i.ValidStrings)
    (hrole : ∀ j, identityAt store i.address = some j → j.role = i.role) :
    Determined (setIdentity store i) := by
  have hstored : ∀ j, j.address ≠ i.address →
      (Stored (Identity.setIdentity store i) j ↔ Stored store j) := by
    intro j hne
    rw [Stored, get_setIdentity_identityKey, if_neg hne, Stored]
  have hsame : ∀ j, Stored (Identity.setIdentity store i) j → j.address = i.address → j = i := by
    rintro j ⟨hj, hget⟩ haddr
    rw [get_setIdentity_identityKey, if_pos haddr] at hget
    exact (marshal_injective hi hj (Option.some.inj hget)).symm
  refine ⟨?_, fun j hj e he => ?_, fun k v hv hk => ?_⟩
  · rw [get_setIdentity_of_notMem, h.params]
    simp [identityEntries, identityParamsKey, ascii, getIdentityKey, identityKey,
      getIdentityByRoleKey, identityByRoleKey]
  · by_cases haddr : j.address = i.address
    · rw [hsame j hj haddr] at he
      exact get_setIdentity_of_mem he
    · have hold := h.complete j ((hstored j haddr).mp hj) e he
      by_cases hkey : e.1 ∈ (identityEntries i).map Prod.fst
      · exact get_setIdentity_of_mem (mem_entries_of_shared_key haddr he hkey)
      · rw [get_setIdentity_of_notMem hkey, hold]
  · by_cases hkey : k ∈ (identityEntries i).map Prod.fst
    · obtain ⟨e, he, rfl⟩ := List.mem_map.mp hkey
      rw [get_setIdentity_of_mem he] at hv
      refine ⟨i, ⟨hi, get_setIdentity_of_mem List.mem_cons_self⟩, ?_⟩
      rw [← Option.some.inj hv]
      exact he
    · rw [get_setIdentity_of_notMem hkey] at hv
      obtain ⟨j, hj, he⟩ := h.content k v hv hk
      by_cases haddr : j.address = i.address
      · have hjrole := hrole j (haddr ▸ identityAt_of_stored hj)
        have hmem : k ∈ (identityEntries j).map Prod.fst := List.mem_map.mpr ⟨(k, v), he, rfl⟩
        simp only [identityEntries, List.map_cons, List.map_nil, haddr, hjrole] at hmem hkey
        exact absurd hmem hkey
      · exact ⟨j, (hstored j haddr).mpr hj, he⟩

theorem exportGenesis (h : Determined store) : ∃ gs, exportGenesis store = .ok gs ∧
    gs.params = defaultParams ∧ ∀ i, i ∈ gs.identities ↔ Stored store i := by
  have hread : ∀ e ∈ store.prefixIterator identityKey, ∃ i, Stored store i ∧
      e = (getIdentityKey i.address, marshal i) ∧ readIdentity e.2 = .ok i := by
    rintro ⟨k, v⟩ he
    obtain ⟨⟨address, rfl⟩, hv⟩ := (OrderedStore.mem_prefixIterator store).mp he
    obtain ⟨i, hi, rfl, rfl⟩ := h.stored_of_get hv
    exact ⟨i, hi, rfl, by simp [readIdentity, IdentityRecord.coerced_of_valid hi.1]⟩
  have hall : getAllIdentities store =
      .ok ((store.prefixIterator identityKey).filterMap fun e => e.2.unmarshal) := by
    refine mapM_eq_filterMap fun e he => ?_
    obtain ⟨i, hi, rfl, hok⟩ := hread e he
    exact ⟨i, hok, by simp [IdentityRecord.coerced_of_valid hi.1]⟩
  refine ⟨_, by rw [Identity.exportGenesis, hall]; rfl, ?_, fun i => ?_⟩
  · have hcoerced : defaultParams.coerced = defaultParams := rfl
    simp [getParams, h.params, hcoerced]
  · rw [List.mem_filterMap]
    constructor
    · rintro ⟨e, he, hi⟩
      obtain ⟨j, hj, rfl, -⟩ := hread e he
      simp only [unmarshal_marshal, IdentityRecord.unmarshal_marshal,
        IdentityRecord.coerced_of_valid hj.1, Option.some.injEq] at hi
      rwa [← hi]
    · intro hi
      refine ⟨(getIdentityKey i.address, marshal i), ?_, by
        simp [IdentityRecord.coerced_of_valid hi.1]⟩
      exact (OrderedStore.mem_prefixIterator store).mpr ⟨List.prefix_append _ _, hi.2⟩

/-- The import of the export writes what the store has. -/
theorem restart (h : Determined store) :
    ∃ gs, Identity.exportGenesis store = .ok gs ∧ initGenesis OrderedStore.empty gs = store := by
  obtain ⟨gs, hexport, hparams, hmem⟩ := h.exportGenesis
  refine ⟨gs, hexport, OrderedStore.ext_get fun k => ?_⟩
  rw [initGenesis_eq_setAll, hparams]
  have hbase : (setParams OrderedStore.empty defaultParams).get k =
      if k = identityParamsKey then some (marshal defaultParams) else none := by
    simp [setParams, OrderedStore.get_set]
  refine OrderedStore.get_setAll_of_agree (fun e he hkey => ?_) (fun v hv => ?_) fun hnone => ?_
  · obtain ⟨i, hi, he⟩ := List.mem_flatMap.mp he
    rw [← hkey]
    exact h.complete i ((hmem i).mp hi) e he
  · by_cases hk : k = identityParamsKey
    · rw [hk, h.params] at hv
      exact Or.inr (by rw [hbase, if_pos hk, hv])
    · obtain ⟨i, hi, he⟩ := h.content k v hv hk
      exact Or.inl (List.mem_flatMap.mpr ⟨i, (hmem i).mpr hi, he⟩)
  · rw [hbase, if_neg]
    rintro rfl
    rw [h.params] at hnone
    cases hnone

end Determined

theorem genesisStore_determined : Determined (genesisStore defaultGenesis) := by
  have hget : ∀ k, (genesisStore defaultGenesis).get k =
      if k = identityParamsKey then some (marshal defaultParams) else none := by
    intro k
    rw [genesisStore, initGenesis_eq_setAll]
    simp [defaultGenesis, setParams, OrderedStore.get_set]
  refine ⟨by rw [hget, if_pos rfl], fun i hi => ?_, fun k v hv hk => ?_⟩
  · have hne : getIdentityKey i.address ≠ identityParamsKey := by
      simp [getIdentityKey, identityKey, identityParamsKey, ascii]
    have hnone := hi.2
    rw [hget, if_neg hne] at hnone
    cases hnone
  · rw [hget, if_neg hk] at hv
    cases hv

theorem run_determined {ms : List (Context × Msg)} (hvalid : ∀ m ∈ ms, m.2.ValidStrings) :
    Determined ((deliver authority).run (genesisStore defaultGenesis) ms) := by
  refine (deliver authority).run_invariant (P := Determined) ms genesisStore_determined ?_
  intro store h m hm
  by_cases hacc : (deliver authority).Accepts store m
  · obtain ⟨i, hi, -, hok, hcases⟩ := deliver_accept authority h.stores (hvalid m hm) hacc
    rw [hok]
    refine h.setIdentity hi fun j hj => ?_
    rcases hcases with ⟨hnone, -⟩ | ⟨i₀, hi₀, hcont, -⟩
    · rw [hnone] at hj
      cases hj
    · rw [hi₀] at hj
      rw [← Option.some.inj hj, hcont.role]
  · rw [deliver_reject authority hacc]
    exact h

/-- Export and import undo each other: every reachable store is restored, and
an admissible state is returned sorted. -/
theorem identityGenesis_roundTrip :
    (∀ ms : List (Context × Msg), (∀ m ∈ ms, m.2.ValidStrings) →
      ∃ gs, exportGenesis ((deliver authority).run (genesisStore defaultGenesis) ms) = .ok gs ∧
        initGenesis OrderedStore.empty gs =
          (deliver authority).run (genesisStore defaultGenesis) ms) ∧
    ∀ gs : GenesisState, gs.validate = .ok () → gs.ValidStrings →
      exportGenesis (initGenesis OrderedStore.empty gs) = .ok gs.sortedByAddress :=
  ⟨fun _ hvalid => (run_determined authority hvalid).restart,
    fun _ hgs hvalid => exportGenesis_initGenesis (GenesisState.nodup_of_validate hgs) hvalid⟩

/-- Two identities, not in the order of their addresses. -/
def twoIdentities : GenesisState :=
  { identities := [sampleAddress, otherAddress].map
      fun address => { address, name := ascii "grid", role := ascii "meter"
                       status := statusActive, metadata := [], registeredAt := 1700000000
                       updatedAt := 1700000000 }
    params := { adminAddress := sampleAddress } }

theorem genesis_roundTrip_revocation :
    (∃ gs, exportGenesis ((deliver sampleAddress).run (genesisStore defaultGenesis) revocation) =
        .ok gs ∧ initGenesis OrderedStore.empty gs =
          (deliver sampleAddress).run (genesisStore defaultGenesis) revocation) ∧
      exportGenesis (initGenesis OrderedStore.empty twoIdentities) =
        .ok twoIdentities.sortedByAddress :=
  ⟨(identityGenesis_roundTrip sampleAddress).1 _ (by decide +kernel),
    (identityGenesis_roundTrip sampleAddress).2 _ (by decide +kernel) (by decide +kernel)⟩

end EnergyChain.Identity
