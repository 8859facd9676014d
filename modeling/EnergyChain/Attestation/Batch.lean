import EnergyChain.Attestation.Contract

/-!
# Batches refine single attestations

A batch of hashes does what attesting them one after another does, or nothing:
the guard of the loop reads the mapping that the earlier iterations have
already written.
-/

namespace EnergyChain.Attestation

variable {ctx : CallContext} {s s' : Storage} {h : Bytes32} {dataType memo : Bytes}

/-- The calls that attest the hashes one by one. -/
def singles (ctx : CallContext) (dataHashes : List Bytes32) (dataType memo : Bytes) :
    List (CallContext × Call) :=
  dataHashes.map fun h => (ctx, .attest h dataType memo)

/-- The storage with the next record written. -/
def stored (ctx : CallContext) (s : Storage) (h : Bytes32) (dataType memo : Bytes) : Storage :=
  let id := s.totalAttestations + 1
  { totalAttestations := id
    attestations := Function.update s.attestations id (newAttestation ctx h dataType memo)
    hashToId := Function.update s.hashToId h id
    submitterAttestations := Function.update s.submitterAttestations ctx.sender
      (s.submitterAttestations ctx.sender ++ [id])
    typeAttestations := Function.update s.typeAttestations dataType
      (s.typeAttestations dataType ++ [id]) }

/-- What `attest` and an iteration of the loop check. -/
def Attestable (s : Storage) (h : Bytes32) : Prop :=
  h ≠ 0 ∧ s.hashToId h = 0 ∧ s.totalAttestations + 1 < uint256Size

theorem store_ok_iff {id : ℕ} :
    store ctx s h dataType memo = .ok (id, s') ↔ s.totalAttestations + 1 < uint256Size ∧
      id = s.totalAttestations + 1 ∧ s' = stored ctx s h dataType memo := by
  simp only [store, except_bind_ok_iff, checkedAdd_ok_iff, except_pure_ok_iff, Prod.mk.injEq]
  constructor
  · rintro ⟨n, ⟨hlt, rfl⟩, rfl, rfl⟩
    exact ⟨hlt, rfl, rfl⟩
  · rintro ⟨hlt, rfl, rfl⟩
    exact ⟨_, ⟨hlt, rfl⟩, rfl, rfl⟩

theorem attest_ok_iff {id : ℕ} :
    attest ctx s h dataType memo = .ok (id, s') ↔
      Attestable s h ∧ id = s.totalAttestations + 1 ∧ s' = stored ctx s h dataType memo := by
  simp only [attest, except_bind_ok_iff, require_ok_iff, store_ok_iff, Attestable]
  constructor
  · rintro ⟨-, hne, -, hnew, hlt, hid, hs⟩
    exact ⟨⟨hne, hnew, hlt⟩, hid, hs⟩
  · rintro ⟨⟨hne, hnew, hlt⟩, hid, hs⟩
    exact ⟨(), hne, (), hnew, hlt, hid, hs⟩

theorem batchItem_ok_iff :
    batchItem ctx dataType memo s h = .ok s' ↔
      Attestable s h ∧ s' = stored ctx s h dataType memo := by
  simp only [batchItem, except_bind_ok_iff, require_ok_iff, except_pure_ok_iff, Prod.exists,
    store_ok_iff, Attestable]
  constructor
  · rintro ⟨-, hne, -, hnew, id, s'', ⟨hlt, -, rfl⟩, rfl⟩
    exact ⟨⟨hne, hnew, hlt⟩, rfl⟩
  · rintro ⟨⟨hne, hnew, hlt⟩, rfl⟩
    exact ⟨(), hne, (), hnew, _, _, ⟨hlt, rfl, rfl⟩, rfl⟩

theorem execute_attest (hs : Attestable s h) :
    execute s (ctx, .attest h dataType memo) =
      (stored ctx s h dataType memo, .ok (s.totalAttestations + 1)) := by
  have hok : attest ctx s h dataType memo = .ok (_, _) := attest_ok_iff.mpr ⟨hs, rfl, rfl⟩
  simp only [execute, hok]

theorem accepts_attest_iff :
    execute.Accepts s (ctx, .attest h dataType memo) ↔ Attestable s h := by
  constructor
  · rintro ⟨id, hid⟩
    simp only [execute] at hid
    cases hres : attest ctx s h dataType memo with
    | error e => simp [hres] at hid
    | ok r => exact (attest_ok_iff.mp hres).1
  · intro hs
    exact ⟨_, congrArg Prod.snd (execute_attest hs)⟩

theorem batchLoop_ok_iff {hashes : List Bytes32} :
    hashes.foldlM (batchItem ctx dataType memo) s = .ok s' ↔
      execute.AcceptsAll s (singles ctx hashes dataType memo) ∧
        s' = execute.run s (singles ctx hashes dataType memo) := by
  induction hashes generalizing s with
  | nil =>
    rw [List.foldlM_nil, except_pure_ok_iff]
    simp [singles, Handler.AcceptsAll, eq_comm]
  | cons h rest ih =>
    rw [List.foldlM_cons, except_bind_ok_iff, singles, List.map_cons, Handler.AcceptsAll,
      Handler.run_cons, accepts_attest_iff]
    simp only [batchItem_ok_iff, ih]
    constructor
    · rintro ⟨s₁, ⟨hs, rfl⟩, hrest⟩
      rw [execute_attest hs]
      exact ⟨⟨hs, hrest.1⟩, hrest.2⟩
    · rintro ⟨⟨hs, hrest⟩, hs'⟩
      rw [execute_attest hs] at hrest hs'
      exact ⟨_, ⟨hs, rfl⟩, hrest, hs'⟩

/-- Attesting hashes one by one succeeds when they are nonzero, distinct and
new: each attestation takes its own hash away from the ones that follow. -/
theorem acceptsAll_singles_iff {hashes : List Bytes32}
    (htotal : s.totalAttestations + hashes.length < uint256Size) :
    execute.AcceptsAll s (singles ctx hashes dataType memo) ↔
      0 ∉ hashes ∧ hashes.Nodup ∧ ∀ h ∈ hashes, s.hashToId h = 0 := by
  induction hashes generalizing s with
  | nil => simp [singles, Handler.AcceptsAll]
  | cons h rest ih =>
    rw [List.length_cons] at htotal
    rw [singles, List.map_cons, Handler.AcceptsAll, accepts_attest_iff]
    have hrest : (stored ctx s h dataType memo).totalAttestations + rest.length < uint256Size := by
      simp only [stored]
      omega
    have hnew : ∀ h', (stored ctx s h dataType memo).hashToId h' = 0 ↔
        h' ≠ h ∧ s.hashToId h' = 0 := by
      intro h'
      simp only [stored, Function.update_apply]
      split_ifs with heq <;> simp [heq]
    constructor
    · rintro ⟨hs, htail⟩
      rw [execute_attest hs] at htail
      obtain ⟨hzero, hnodup, hfresh⟩ := (ih hrest).mp htail
      have hnotin : h ∉ rest := fun hmem => ((hnew h).mp (hfresh h hmem)).1 rfl
      refine ⟨?_, List.nodup_cons.mpr ⟨hnotin, hnodup⟩, fun h' hmem => ?_⟩
      · exact fun hmem => (List.mem_cons.mp hmem).elim (fun heq => hs.1 heq.symm) hzero
      · rcases List.mem_cons.mp hmem with rfl | hmem
        · exact hs.2.1
        · exact ((hnew h').mp (hfresh h' hmem)).2
    · rintro ⟨hzero, hnodup, hfresh⟩
      obtain ⟨hnotin, hnodup⟩ := List.nodup_cons.mp hnodup
      have hs : Attestable s h := by
        refine ⟨?_, hfresh h List.mem_cons_self, by omega⟩
        rintro rfl
        exact hzero List.mem_cons_self
      refine ⟨hs, ?_⟩
      rw [execute_attest hs]
      refine (ih hrest).mpr ⟨fun hmem => hzero (List.mem_cons_of_mem _ hmem), hnodup,
        fun h' hmem => (hnew h').mpr ⟨?_, hfresh h' (List.mem_cons_of_mem _ hmem)⟩⟩
      rintro rfl
      exact hnotin hmem

theorem batchAttest_ok_iff {hashes : List Bytes32} {startId : ℕ} :
    batchAttest ctx s hashes dataType memo = .ok (startId, s') ↔
      (1 ≤ hashes.length ∧ hashes.length ≤ 100) ∧
      execute.AcceptsAll s (singles ctx hashes dataType memo) ∧
      startId = s.totalAttestations + 1 ∧
      s' = execute.run s (singles ctx hashes dataType memo) := by
  simp only [batchAttest, except_bind_ok_iff, require_ok_iff, checkedAdd_ok_iff,
    except_pure_ok_iff, Prod.mk.injEq, batchLoop_ok_iff]
  constructor
  · rintro ⟨-, hpos, -, hle, n, ⟨-, rfl⟩, s₁, ⟨hall, rfl⟩, rfl, rfl⟩
    exact ⟨⟨hpos, hle⟩, hall, rfl, rfl⟩
  · rintro ⟨⟨hpos, hle⟩, hall, rfl, rfl⟩
    -- The first single attestation has room for its ID.
    have hroom : s.totalAttestations + 1 < uint256Size := by
      cases hashes with
      | nil => cases hpos
      | cons h rest => exact (accepts_attest_iff.mp hall.1).2.2
    exact ⟨(), hpos, (), hle, _, ⟨hroom, rfl⟩, _, ⟨hall, rfl⟩, rfl, rfl⟩

theorem accepts_batchAttest_iff {hashes : List Bytes32} :
    execute.Accepts s (ctx, .batchAttest hashes dataType memo) ↔
      (1 ≤ hashes.length ∧ hashes.length ≤ 100) ∧
        execute.AcceptsAll s (singles ctx hashes dataType memo) := by
  constructor
  · rintro ⟨id, hid⟩
    simp only [execute] at hid
    cases hres : batchAttest ctx s hashes dataType memo with
    | error e => simp [hres] at hid
    | ok r =>
      obtain ⟨hlen, hall, -, -⟩ := batchAttest_ok_iff.mp hres
      exact ⟨hlen, hall⟩
  · rintro ⟨hlen, hall⟩
    have hok := batchAttest_ok_iff.mpr ⟨hlen, hall, rfl, rfl⟩
    exact ⟨s.totalAttestations + 1, by simp only [execute, hok]⟩

/-- A batch is accepted when its hashes could be attested one by one, and then
it leaves their state and returns the first of their IDs; otherwise it leaves
the storage alone. -/
theorem batchAttest_refines_attest (ctx : CallContext) (s : Storage) (hashes : List Bytes32)
    (dataType memo : Bytes) (htotal : s.totalAttestations ≤ 2 ^ 256 - 101) :
    (execute.Accepts s (ctx, .batchAttest hashes dataType memo) ↔
      (1 ≤ hashes.length ∧ hashes.length ≤ 100) ∧
        execute.AcceptsAll s (singles ctx hashes dataType memo)) ∧
    (execute.Accepts s (ctx, .batchAttest hashes dataType memo) ↔
      (1 ≤ hashes.length ∧ hashes.length ≤ 100) ∧
        0 ∉ hashes ∧ hashes.Nodup ∧ ∀ h ∈ hashes, (verifyByHash s h).1 = false) ∧
    (execute.Accepts s (ctx, .batchAttest hashes dataType memo) →
      (execute s (ctx, .batchAttest hashes dataType memo)).1 =
        execute.run s (singles ctx hashes dataType memo) ∧
      ∃ first rest, singles ctx hashes dataType memo = first :: rest ∧
        (execute s (ctx, .batchAttest hashes dataType memo)).2 = (execute s first).2) ∧
    (¬ execute.Accepts s (ctx, .batchAttest hashes dataType memo) →
      (execute s (ctx, .batchAttest hashes dataType memo)).1 = s) := by
  refine ⟨accepts_batchAttest_iff, ?_, fun hacc => ?_, fun hrej => ?_⟩
  · rw [accepts_batchAttest_iff]
    refine and_congr_right fun hlen => ?_
    have hroom : s.totalAttestations + hashes.length < uint256Size := by
      rw [uint256Size_eq]
      omega
    have hverify : ∀ h, (verifyByHash s h).1 = false ↔ s.hashToId h = 0 := by
      intro h
      simp only [verifyByHash]
      split_ifs with hzero <;> simp [hzero]
    simp only [acceptsAll_singles_iff hroom, hverify]
  · obtain ⟨hlen, hall⟩ := accepts_batchAttest_iff.mp hacc
    have hok := batchAttest_ok_iff.mpr ⟨hlen, hall, rfl, rfl⟩
    refine ⟨by simp only [execute, hok], ?_⟩
    cases hashes with
    | nil => cases hlen.1
    | cons h rest =>
      refine ⟨_, _, rfl, ?_⟩
      have hfirst : execute s (ctx, .attest h dataType memo) = _ :=
        execute_attest (accepts_attest_iff.mp hall.1)
      rw [hfirst]
      simp only [execute, hok]
  · simp only [execute]
    cases hres : batchAttest ctx s hashes dataType memo with
    | error e => rfl
    | ok r => exact absurd ⟨r.1, by simp only [execute, hres]⟩ hrej

/-- A call from the zero account in the first block. -/
def sampleContext : CallContext :=
  { sender := Address.zero, block := { timestamp := 1700000000, number := 1 } }

/-- Two hashes are a batch for a fresh contract. -/
theorem batchAttest_refines_attest_initial :
    (execute Storage.initial (sampleContext, .batchAttest [1, 2] (ascii "meter") [])).1 =
      execute.run .initial (singles sampleContext [1, 2] (ascii "meter") []) := by
  have hrefines := batchAttest_refines_attest sampleContext .initial [1, 2] (ascii "meter") []
    (by simp [Storage.initial])
  exact (hrefines.2.2.1 (hrefines.2.1.mpr (by simp [verifyByHash, Storage.initial]))).1

end EnergyChain.Attestation
