import EnergyChain.Energy.Refinement

/-!
# x/energy: the append-only property

What the log says about whole runs from the default genesis: identifiers are
used once, what is stored stays, and the queries list the accepted messages.
-/

namespace EnergyChain.Energy

variable (keccak256 : Bytes → Bytes)

theorem drawnIDsOfRun_nodup (ms : List (Context × Msg))
    (hbound : (drawnIDsOfRun keccak256 genesisStore ms).length < 2 ^ 64) :
    (drawnIDsOfRun keccak256 genesisStore ms).Nodup := by
  rw [drawnIDsOfRun_eq keccak256 genesisStore_represents ms (by omega)]
  have hrange : (List.range' 1 (drawnIDsOfRun keccak256 genesisStore ms).length).Nodup :=
    List.nodup_range'
  exact hrange.map energyID_injective

theorem run_represents_of_drawn (ms : List (Context × Msg))
    (hbound : (drawnIDsOfRun keccak256 genesisStore ms).length < 2 ^ 64) :
    Represents ((deliver keccak256).run genesisStore ms)
      (issued ((deliver keccak256).history genesisStore ms))
      (loggedRecords ((deliver keccak256).history genesisStore ms))
      (loggedBatches ((deliver keccak256).history genesisStore ms)) :=
  run_represents keccak256 ms (by rwa [drawnIDsOfRun_length] at hbound)

section Prefixes

variable {pre post : List (Context × Msg)}
  (hbound : (drawnIDsOfRun keccak256 genesisStore (pre ++ post)).length < 2 ^ 64)

include hbound

theorem drawn_prefix_lt : (drawnIDsOfRun keccak256 genesisStore pre).length < 2 ^ 64 := by
  rw [drawnIDsOfRun_length] at hbound ⊢
  rw [Handler.history_append, issued, List.map_append, List.sum_append] at hbound
  exact lt_of_le_of_lt (Nat.le_add_right _ _) hbound

theorem getEnergyData_preserved {id : Bytes} {d : EnergyData}
    (h : getEnergyData ((deliver keccak256).run genesisStore pre) id = some d) :
    getEnergyData ((deliver keccak256).run genesisStore (pre ++ post)) id = some d := by
  have hpre := run_represents_of_drawn keccak256 pre (drawn_prefix_lt keccak256 hbound)
  have hall := run_represents_of_drawn keccak256 (pre ++ post) hbound
  obtain ⟨d', hd', hid, hcoerced⟩ := hpre.getEnergyData_eq_some.mp h
  refine hall.getEnergyData_eq_some.mpr ⟨d', ?_, hid, hcoerced⟩
  rw [Handler.history_append]
  exact (logged_subset_append _ _).1 hd'

theorem getBatch_preserved {id : Bytes} {b : BatchSubmission}
    (h : getBatch ((deliver keccak256).run genesisStore pre) id = some b) :
    getBatch ((deliver keccak256).run genesisStore (pre ++ post)) id = some b := by
  have hpre := run_represents_of_drawn keccak256 pre (drawn_prefix_lt keccak256 hbound)
  have hall := run_represents_of_drawn keccak256 (pre ++ post) hbound
  obtain ⟨b', hb', hid, hcoerced⟩ := hpre.getBatch_eq_some.mp h
  refine hall.getBatch_eq_some.mpr ⟨b', ?_, hid, hcoerced⟩
  rw [Handler.history_append]
  exact (logged_subset_append _ _).2 hb'

end Prefixes

section Submitters

variable {decode : AddressDecoder} (hdecode : PrintableAddresses decode)
  {ms : List (Context × Msg)} (hbasic : ∀ m ∈ ms, m.2.validateBasic decode = .ok ())

include hdecode hbasic

/-- Submitters of logged records are addresses: no zero byte, valid UTF-8. -/
theorem submitter_of_logged {d : EnergyData}
    (hd : d ∈ loggedRecords ((deliver keccak256).history genesisStore ms)) :
    (0 : Byte) ∉ d.submitter ∧ coerceUTF8 d.submitter = d.submitter := by
  obtain ⟨m, hm, hsub⟩ := submitter_of_mem_loggedRecords hd
  obtain ⟨account, hacc⟩ := Msg.submitter_of_validateBasic
    (hbasic m ((deliver keccak256).history_subset genesisStore ms hm))
  rw [hsub]
  exact ⟨hdecode.zero_notMem hacc, coerceUTF8_of_valid (hdecode.validUTF8 hacc)⟩

theorem getEnergyDataBySubmitter_run_perm
    (hbound : (drawnIDsOfRun keccak256 genesisStore ms).length < 2 ^ 64) (s : Bytes) :
    (getEnergyDataBySubmitter ((deliver keccak256).run genesisStore ms) s).Perm
      ((getAllData ((deliver keccak256).run genesisStore ms)).filter
        fun d => decide (d.submitter = s)) := by
  have h := run_represents_of_drawn keccak256 ms hbound
  have hsub := fun d hd => submitter_of_logged keccak256 hdecode hbasic (d := d) hd
  refine (h.getEnergyDataBySubmitter_perm (fun d hd => (hsub d hd).1) s).trans ?_
  refine List.Perm.trans (List.Perm.of_eq ?_) (h.getAllData_perm.filter _).symm
  rw [List.filter_map]
  congr 1
  apply List.filter_congr
  intro d hd
  simp only [Function.comp_apply, EnergyData.coerced, (hsub d hd).2]

end Submitters

/-- The module is append-only over whole runs. -/
theorem energy_append_only {decode : AddressDecoder} (hdecode : PrintableAddresses decode)
    (ms : List (Context × Msg)) (hbasic : ∀ m ∈ ms, m.2.validateBasic decode = .ok ())
    (hbound : (drawnIDsOfRun keccak256 genesisStore ms).length < 2 ^ 64) :
    (drawnIDsOfRun keccak256 genesisStore ms).Nodup ∧
    (∀ pre post, ms = pre ++ post →
      (∀ id d, getEnergyData ((deliver keccak256).run genesisStore pre) id = some d →
        getEnergyData ((deliver keccak256).run genesisStore ms) id = some d) ∧
      (∀ id b, getBatch ((deliver keccak256).run genesisStore pre) id = some b →
        getBatch ((deliver keccak256).run genesisStore ms) id = some b)) ∧
    (∀ id d, getEnergyData ((deliver keccak256).run genesisStore ms) id = some d ↔
      ∃ d' ∈ loggedRecords ((deliver keccak256).history genesisStore ms),
        d'.id = id ∧ d'.coerced = d) ∧
    (∀ id b, getBatch ((deliver keccak256).run genesisStore ms) id = some b ↔
      ∃ b' ∈ loggedBatches ((deliver keccak256).history genesisStore ms),
        b'.id = id ∧ b'.coerced = b) ∧
    (getAllData ((deliver keccak256).run genesisStore ms)).Perm
      ((loggedRecords ((deliver keccak256).history genesisStore ms)).map EnergyData.coerced) ∧
    ∀ s, (getEnergyDataBySubmitter ((deliver keccak256).run genesisStore ms) s).Perm
      ((getAllData ((deliver keccak256).run genesisStore ms)).filter
        fun d => decide (d.submitter = s)) := by
  have hall := run_represents_of_drawn keccak256 ms hbound
  refine ⟨drawnIDsOfRun_nodup keccak256 ms hbound, ?_,
    fun id d => hall.getEnergyData_eq_some, fun id b => hall.getBatch_eq_some,
    hall.getAllData_perm,
    getEnergyDataBySubmitter_run_perm keccak256 hdecode hbasic hbound⟩
  rintro pre post rfl
  exact ⟨fun id d => getEnergyData_preserved keccak256 hbound,
    fun id b => getBatch_preserved keccak256 hbound⟩

/-- A single submission, a batch, and a batch with a wrong root. -/
def sampleRun : List (Context × Msg) :=
  let ctx : Context := { blockHeight := 7, blockTime := 1700000000, txBytes := [] }
  let batch : MsgBatchSubmit :=
    { submitter := sampleAddress, category := ascii "solar"
      items := [{ dataHash := ascii "a", metadata := [] }, { dataHash := ascii "b", metadata := [] }]
      merkleRoot := ascii "805b21d846b189efaeb0377d6bb0d201b3872a363e607c25088f025b0c6ae1f8" }
  [(ctx, .submitEnergyData { submitter := sampleAddress, category := ascii "wind"
                             dataHash := ascii "abc", metadata := [] }),
    (ctx, .batchSubmit batch), (ctx, .batchSubmit { batch with merkleRoot := ascii "0x00" })]

/-- The accepted batch of the sample run, stored under the second ID. -/
def sampleBatch : BatchSubmission :=
  { id := energyID 2, submitter := sampleAddress, category := ascii "solar", dataCount := 2
    merkleRoot := ascii "805b21d846b189efaeb0377d6bb0d201b3872a363e607c25088f025b0c6ae1f8"
    timestamp := 1700000000 }

/-- The batch is returned, and all three records are those of the submitter. -/
theorem energy_append_only_sampleRun :
    getBatch ((deliver keccakOfPair).run genesisStore sampleRun) (energyID 2) = some sampleBatch ∧
    (getEnergyDataBySubmitter ((deliver keccakOfPair).run genesisStore sampleRun)
      sampleAddress).Perm
      ((getAllData ((deliver keccakOfPair).run genesisStore sampleRun)).filter
        fun d => decide (d.submitter = sampleAddress)) := by
  obtain ⟨-, -, -, hbatch, -, hsubmitter⟩ :=
    energy_append_only keccakOfPair sampleDecoder_printable sampleRun (by decide)
      (lt_of_le_of_lt (drawnIDsOfRun_length_le keccakOfPair genesisStore sampleRun) (by decide))
  refine ⟨(hbatch _ _).mpr ⟨sampleBatch, ?_, rfl, ?_⟩, hsubmitter sampleAddress⟩
  · decide +kernel
  · decide +kernel

end EnergyChain.Energy
