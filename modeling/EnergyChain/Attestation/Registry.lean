import EnergyChain.Attestation.Contract
import EnergyChain.Foundations.NumberedLog

/-!
# EnergyDataAttestation refines an append-only registry

The abstract registry is the list of attested records, without two records of
one hash. The contract's counter, its four mappings and its queries are read
off that list, and every successful call appends to it.
-/

namespace EnergyChain.Attestation

open NumberedLog

/-- The storage holds exactly the records of the list, numbered from one. -/
structure Represents (s : Storage) (log : List AttestationRecord) : Prop where
  total : s.totalAttestations = log.length
  attestations : ∀ id, s.attestations id = (entry log id).getD .zero
  hashToId : ∀ h id, id ≠ 0 → (s.hashToId h = id ↔ ∃ a, entry log id = some a ∧ a.dataHash = h)
  bySubmitter : ∀ a, s.submitterAttestations a = numbersOf (fun r => r.submitter = a) log
  byType : ∀ t, s.typeAttestations t = numbersOf (fun r => r.dataType = t) log
  nonzero : ∀ a ∈ log, a.dataHash ≠ 0

theorem initial_represents : Represents .initial [] where
  total := rfl
  attestations id := by cases id <;> rfl
  hashToId h id hid := by
    cases id with
    | zero => exact absurd rfl hid
    | succ id => simp [Storage.initial, entry]
  bySubmitter _ := rfl
  byType _ := rfl
  nonzero := by simp

namespace Represents

variable {s s' : Storage} {log : List AttestationRecord}

theorem hashToId_of_entry (h : Represents s log) {id : ℕ} {a : AttestationRecord}
    (ha : entry log id = some a) : s.hashToId a.dataHash = id := by
  have hid := ((entry_isSome_iff log).mp ⟨a, ha⟩).1
  exact (h.hashToId a.dataHash id (by omega)).mpr ⟨a, ha, rfl⟩

theorem hashToId_eq_zero_iff (h : Represents s log) {hash : Bytes32} :
    s.hashToId hash = 0 ↔ ∀ a ∈ log, a.dataHash ≠ hash := by
  constructor
  · rintro hzero a ha rfl
    obtain ⟨id, hid⟩ := (mem_iff_entry log).mp ha
    have hnum := h.hashToId_of_entry hid
    rw [hzero] at hnum
    subst hnum
    cases hid
  · intro hnone
    by_contra hne
    obtain ⟨a, ha, hhash⟩ := (h.hashToId hash _ hne).mp rfl
    exact hnone a ((mem_iff_entry log).mpr ⟨_, ha⟩) hhash

theorem store (h : Represents s log) {ctx : CallContext} {hash : Bytes32} {dataType memo : Bytes}
    {id : ℕ} (hnonzero : hash ≠ 0) (hnew : s.hashToId hash = 0)
    (hok : store ctx s hash dataType memo = .ok (id, s')) :
    id = log.length + 1 ∧ Represents s' (log ++ [newAttestation ctx hash dataType memo]) := by
  simp only [Attestation.store, except_bind_ok_iff, checkedAdd_ok_iff, except_pure_ok_iff,
    Prod.mk.injEq, h.total] at hok
  obtain ⟨n, ⟨-, rfl⟩, rfl, rfl⟩ := hok
  have hfresh := h.hashToId_eq_zero_iff.mp hnew
  refine ⟨rfl, ?_⟩
  exact
    { total := by simp
      attestations := fun i => by
        dsimp only
        rw [entry_append_singleton_eq, Function.update_apply]
        split_ifs
        · rfl
        · exact h.attestations i
      hashToId := update_number AttestationRecord.dataHash h.hashToId
        (a := newAttestation ctx hash dataType memo) hfresh
      bySubmitter := update_numbersOf AttestationRecord.submitter h.bySubmitter
        (newAttestation ctx hash dataType memo)
      byType := update_numbersOf AttestationRecord.dataType h.byType
        (newAttestation ctx hash dataType memo)
      nonzero := fun a ha => by
        rcases List.mem_append.mp ha with ha | ha
        · exact h.nonzero a ha
        · rw [List.mem_singleton.mp ha]
          exact hnonzero }

theorem entry_inj (h : Represents s log) {id id' : ℕ} {a a' : AttestationRecord}
    (ha : entry log id = some a) (ha' : entry log id' = some a')
    (hhash : a.dataHash = a'.dataHash) : id = id' := by
  rw [← h.hashToId_of_entry ha, ← h.hashToId_of_entry ha', hhash]

theorem verifyByHash (h : Represents s log) (hash : Bytes32) :
    ((∃ a, verifyByHash s hash = (true, a)) ↔ ∃ a ∈ log, a.dataHash = hash) ∧
      ∀ a ∈ log, a.dataHash = hash → verifyByHash s hash = (true, a) := by
  have hfound : ∀ a ∈ log, a.dataHash = hash →
      Attestation.verifyByHash s hash = (true, a) := by
    rintro a ha rfl
    obtain ⟨id, hid⟩ := (mem_iff_entry log).mp ha
    have hpos := ((entry_isSome_iff log).mp ⟨a, hid⟩).1
    simp only [Attestation.verifyByHash, h.hashToId_of_entry hid]
    rw [if_neg (by omega), h.attestations, hid, Option.getD_some]
  refine ⟨⟨fun ⟨a, ha⟩ => ?_, fun ⟨a, ha, hhash⟩ => ⟨a, hfound a ha hhash⟩⟩, hfound⟩
  by_contra hnone
  push Not at hnone
  rw [Attestation.verifyByHash, h.hashToId_eq_zero_iff.mpr hnone] at ha
  simp at ha

end Represents

/-! ### Calls -/

section Calls

variable {s s' : Storage} {log : List AttestationRecord} {ctx : CallContext}

theorem attest_represents (h : Represents s log) {hash : Bytes32} {dataType memo : Bytes} {id : ℕ}
    (hok : attest ctx s hash dataType memo = .ok (id, s')) :
    Represents s' (log ++ [newAttestation ctx hash dataType memo]) := by
  simp only [attest, except_bind_ok_iff, require_ok_iff] at hok
  obtain ⟨-, hnonzero, -, hnew, hstore⟩ := hok
  exact (h.store hnonzero hnew hstore).2

theorem batchItem_represents (h : Represents s log) {dataType memo : Bytes} {hash : Bytes32}
    (hok : batchItem ctx dataType memo s hash = .ok s') :
    Represents s' (log ++ [newAttestation ctx hash dataType memo]) := by
  simp only [batchItem, except_bind_ok_iff, require_ok_iff, except_pure_ok_iff] at hok
  obtain ⟨-, hnonzero, -, hnew, ⟨id, s''⟩, hstore, rfl⟩ := hok
  exact (h.store hnonzero hnew hstore).2

theorem batchLoop_represents (h : Represents s log) {dataType memo : Bytes}
    {hashes : List Bytes32} (hok : hashes.foldlM (batchItem ctx dataType memo) s = .ok s') :
    Represents s' (log ++ hashes.map fun hash => newAttestation ctx hash dataType memo) := by
  induction hashes generalizing s log with
  | nil =>
    rw [List.foldlM_nil, except_pure_ok_iff] at hok
    simpa [← hok] using h
  | cons hash rest ih =>
    rw [List.foldlM_cons, except_bind_ok_iff] at hok
    obtain ⟨s₁, hitem, hrest⟩ := hok
    simpa using ih (batchItem_represents h hitem) hrest

theorem batchAttest_represents (h : Represents s log) {dataType memo : Bytes}
    {hashes : List Bytes32} {startId : ℕ}
    (hok : batchAttest ctx s hashes dataType memo = .ok (startId, s')) :
    Represents s' (log ++ hashes.map fun hash => newAttestation ctx hash dataType memo) := by
  simp only [batchAttest, except_bind_ok_iff, except_pure_ok_iff, Prod.mk.injEq] at hok
  obtain ⟨-, -, -, -, -, -, s₁, hloop, -, rfl⟩ := hok
  exact batchLoop_represents h hloop

/-- A successful call appends its records, a failed one changes nothing. -/
theorem execute_represents (h : Represents s log) (m : CallContext × Call) :
    (execute.Accepts s m → Represents (execute s m).1 (log ++ attested m)) ∧
      (¬ execute.Accepts s m → (execute s m).1 = s) := by
  obtain ⟨ctx, call⟩ := m
  simp only [Handler.Accepts, execute]
  cases call with
  | attest hash dataType memo =>
    cases hres : attest ctx s hash dataType memo with
    | error e => simp [hres]
    | ok r => simpa [hres, attested] using attest_represents h hres
  | batchAttest hashes dataType memo =>
    cases hres : batchAttest ctx s hashes dataType memo with
    | error e => simp [hres]
    | ok r => simpa [hres, attested] using batchAttest_represents h hres

end Calls

/-! ### Runs -/

/-- The records of the successful calls of a history. -/
def attestedLog (hist : List (CallContext × Call)) : List AttestationRecord := hist.flatMap attested

theorem run_represents (calls : List (CallContext × Call)) :
    Represents (execute.run .initial calls) (attestedLog (execute.history .initial calls)) := by
  refine execute.run_induction (P := fun s hist => Represents s (attestedLog hist)) calls
    initial_represents ?_ ?_
  · intro s hist ih m _ hacc
    simpa [attestedLog] using (execute_represents ih m).1 hacc
  · intro s hist ih m _ hrej
    rw [(execute_represents ih m).2 hrej]
    exact ih

theorem entry_of_prefix (pre post : List (CallContext × Call)) {id : ℕ}
    (hid : id ≤ (attestedLog (execute.history .initial pre)).length) :
    entry (attestedLog (execute.history .initial (pre ++ post))) id =
      entry (attestedLog (execute.history .initial pre)) id := by
  rw [Handler.history_append, attestedLog, List.flatMap_append]
  exact entry_append_of_le _ hid _

/-- What holds of the storage `s` after the successful calls `hist`. A number is
an ID when it is between one and `totalAttestations`. -/
structure RegistryInvariant (s : Storage) (hist : List (CallContext × Call)) : Prop where
  stored : ∀ id, s.attestations id ≠ .zero ↔ 1 ≤ id ∧ id ≤ s.totalAttestations
  uniqueHash : ∀ id id', 1 ≤ id ∧ id ≤ s.totalAttestations →
    1 ≤ id' ∧ id' ≤ s.totalAttestations →
    (s.attestations id).dataHash = (s.attestations id').dataHash → id = id'
  hashToId : ∀ h id, s.hashToId h = id ∧ id ≠ 0 ↔
    (1 ≤ id ∧ id ≤ s.totalAttestations) ∧ (s.attestations id).dataHash = h
  verifyExists : ∀ h, (∃ a, verifyByHash s h = (true, a)) ↔
    ∃ m ∈ hist, ∃ a ∈ attested m, a.dataHash = h
  verifyRecord : ∀ m ∈ hist, ∀ a ∈ attested m, verifyByHash s a.dataHash = (true, a)
  bySubmitter : ∀ a, (getAttestationsBySubmitter s a).Pairwise (· < ·) ∧
    ∀ id, id ∈ getAttestationsBySubmitter s a ↔
      (1 ≤ id ∧ id ≤ s.totalAttestations) ∧ (s.attestations id).submitter = a
  byType : ∀ t, (getAttestationsByType s t).Pairwise (· < ·) ∧
    ∀ id, id ∈ getAttestationsByType s t ↔
      (1 ≤ id ∧ id ≤ s.totalAttestations) ∧ (s.attestations id).dataType = t

namespace Represents

variable {s : Storage} {log : List AttestationRecord}

theorem id_iff (h : Represents s log) {id : ℕ} {P : AttestationRecord → Prop} :
    (∃ a, entry log id = some a ∧ P a) ↔
      (1 ≤ id ∧ id ≤ s.totalAttestations) ∧ P (s.attestations id) := by
  rw [h.total, ← entry_isSome_iff, h.attestations]
  constructor
  · rintro ⟨a, ha, hp⟩
    exact ⟨⟨a, ha⟩, by rwa [ha, Option.getD_some]⟩
  · rintro ⟨⟨a, ha⟩, hp⟩
    exact ⟨a, ha, by rwa [ha, Option.getD_some] at hp⟩

theorem stored_iff (h : Represents s log) (id : ℕ) :
    s.attestations id ≠ .zero ↔ 1 ≤ id ∧ id ≤ s.totalAttestations := by
  rw [h.total, ← entry_isSome_iff, h.attestations]
  cases ha : entry log id with
  | none => simp
  | some a =>
    have hne : a ≠ .zero := by
      rintro rfl
      exact h.nonzero _ ((mem_iff_entry log).mpr ⟨id, ha⟩) rfl
    simp [hne]

theorem registryInvariant {hist : List (CallContext × Call)}
    (h : Represents s (attestedLog hist)) : RegistryInvariant s hist where
  stored := h.stored_iff
  uniqueHash id id' hid hid' hhash := by
    obtain ⟨a, ha, -, ha'⟩ := (h.id_iff (P := fun a => a ≠ .zero ∧ a = s.attestations id)).mpr
      ⟨hid, (h.stored_iff id).mpr hid, rfl⟩
    obtain ⟨b, hb, -, hb'⟩ := (h.id_iff (P := fun a => a ≠ .zero ∧ a = s.attestations id')).mpr
      ⟨hid', (h.stored_iff id').mpr hid', rfl⟩
    exact h.entry_inj ha hb (by rw [ha', hb', hhash])
  hashToId hash id := by
    rw [← h.id_iff (P := fun a => a.dataHash = hash)]
    constructor
    · rintro ⟨hid, hne⟩
      exact (h.hashToId hash id hne).mp hid
    · rintro ⟨a, ha, hhash⟩
      have hne : id ≠ 0 := by
        rintro rfl
        cases ha
      exact ⟨(h.hashToId hash id hne).mpr ⟨a, ha, hhash⟩, hne⟩
  verifyExists hash := by
    rw [(h.verifyByHash hash).1]
    constructor
    · rintro ⟨a, ha, hhash⟩
      obtain ⟨m, hm, ha⟩ := List.mem_flatMap.mp ha
      exact ⟨m, hm, a, ha, hhash⟩
    · rintro ⟨m, hm, a, ha, hhash⟩
      exact ⟨a, List.mem_flatMap.mpr ⟨m, hm, ha⟩, hhash⟩
  verifyRecord m hm a ha :=
    (h.verifyByHash a.dataHash).2 a (List.mem_flatMap.mpr ⟨m, hm, ha⟩) rfl
  bySubmitter a := by
    rw [getAttestationsBySubmitter, h.bySubmitter]
    exact ⟨numbersOf_pairwise_lt _ _, fun id => (mem_numbersOf _ _).trans h.id_iff⟩
  byType t := by
    rw [getAttestationsByType, h.byType]
    exact ⟨numbersOf_pairwise_lt _ _, fun id => (mem_numbersOf _ _).trans h.id_iff⟩

end Represents

/-- The invariant of every reachable state, and the permanence of records. -/
theorem registry_invariant (calls : List (CallContext × Call)) :
    RegistryInvariant (execute.run .initial calls) (execute.history .initial calls) ∧
    ∀ pre post, calls = pre ++ post →
      ∀ id, 1 ≤ id ∧ id ≤ (execute.run .initial pre).totalAttestations →
        id ≤ (execute.run .initial calls).totalAttestations ∧
        (execute.run .initial calls).attestations id =
          (execute.run .initial pre).attestations id := by
  refine ⟨(run_represents calls).registryInvariant, ?_⟩
  rintro pre post rfl id hid
  have hpre := run_represents pre
  have hall := run_represents (pre ++ post)
  rw [hpre.total] at hid
  have hentry := entry_of_prefix pre post hid.2
  obtain ⟨a, ha⟩ := (entry_isSome_iff _).mpr hid
  rw [hall.attestations, hpre.attestations, hentry, hall.total]
  exact ⟨((entry_isSome_iff _).mp ⟨a, hentry.trans ha⟩).2, rfl⟩

end EnergyChain.Attestation
