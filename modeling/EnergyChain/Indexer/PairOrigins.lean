import EnergyChain.Indexer.Readiness
import EnergyChain.Indexer.RowOrigins

/-!
# Where pairs come from

A pass stores a pair only for a `PairCreated` log of the factory that the node reports.
In every state the indexer reaches, the factory has created each pair in the database, and
so each pair that a row is from, in the block of the row or in one before it.
-/

namespace EnergyChain.Indexer

variable {factory : Address} {chain : Chain factory} {contracts : Address → TokenContract}
  {Faulty : Prop} {A : Request → Memory → Backend → Prop} {startBlock : ℕ}

/-- The factory creates every pair of the database in some block. -/
def Announced (chain : Chain factory) (db : Database) : Prop :=
  ∀ pair ∈ db.pairAddresses, ∃ b, chain.CreatedIn pair b

/-- The request stores no pair that the factory never creates. -/
def StoresAnnounced (chain : Chain factory) (q : Request) : Prop :=
  ∀ data, q = .pairUpsert data → ∃ b, chain.CreatedIn data.address b

theorem storesAnnounced_of_plain {q : Request} (hq : q.plain = true) : StoresAnnounced chain q := by
  rintro data rfl
  cases hq

theorem Announced.served {s : Backend} (h : Announced chain s.db) {q : Request}
    (hq : StoresAnnounced chain q) : Announced chain (serve chain contracts q s).2.db := by
  intro pair hpair
  by_cases hupsert : ∃ data, q = .pairUpsert data
  · obtain ⟨data, rfl⟩ := hupsert
    rcases mem_pairAddresses_upsert hpair with hold | rfl
    · exact h pair hold
    · exact hq data rfl
  · rw [pairAddresses_serve fun data hdata => hupsert ⟨data, hdata⟩] at hpair
    exact h pair hpair

theorem holds_announced {α : Type} {p : Program α}
    (h : p.Within (StoresAnnounced chain) fun _ => True) :
    Holds (servers chain contracts Faulty) A (fun c => Announced chain c.2.db) p
      (fun _ c => Announced chain c.2.db) (fun c => Announced chain c.2.db) :=
  h.holds (fun _ _ _ hc hd => by rw [hd.1]; exact hc) (fun _ _ _ hq hc => hc.served hq)
    fun _ _ _ _ hc => hc

section Within

open Async (Within)

theorem within_announced {α : Type} {p : Program α}
    (h : p.Within (fun q => q.plain = true) fun _ => True) :
    p.Within (StoresAnnounced chain) fun _ => True :=
  h.mono (fun _ => storesAnnounced_of_plain) fun _ hf => hf

theorem within_handlePairCreated_announced {token0 token1 pairAddr : Address} {blockNumber b : ℕ}
    (hcreated : chain.CreatedIn pairAddr b) :
    (handlePairCreated token0 token1 pairAddr blockNumber).Within (StoresAnnounced chain)
      fun _ => True := by
  apply within_handlePairCreated
  · intro q htoken
    exact storesAnnounced_of_plain (Request.plain_of_silent (Request.silent_of_ofToken htoken))
  · rintro data rfl _ ⟨⟩
    exact ⟨b, hcreated⟩

end Within

/-- If the log announces a pair, the factory creates it. -/
def Announces (chain : Chain factory) (log : EventLog) : Prop :=
  ∀ token0 token1 pair n, log.event = .pairCreated token0 token1 pair n →
    ∃ b, chain.CreatedIn pair b

theorem announces_queryFilter {kind : EventKind} {lo hi : ℕ} {log : EventLog}
    (hlog : log ∈ chain.queryFilter factory kind lo hi) : Announces chain log := by
  intro token0 token1 pair n hevent
  obtain ⟨hlogs, hfactory, -⟩ := mem_queryFilter.mp hlog
  obtain ⟨b, -, -, hmined⟩ := mem_logs.mp hlogs
  refine ⟨b, log.toLog, List.mem_of_getElem? (mem_blockLogs.mp hmined).2, hfactory, ?_⟩
  rw [hevent]

theorem holds_announcements {kind : EventKind} {lo hi : ℕ} :
    Holds (servers chain contracts Faulty) A (fun c => Announced chain c.2.db)
      (queryFilter factory kind lo hi)
      (fun logs c => Announced chain c.2.db ∧ ∀ log ∈ logs, Announces chain log)
      (fun c => Announced chain c.2.db) := by
  have hdrift : ∀ {s s' : Backend}, Announced chain s.db →
      (servers chain contracts Faulty).drift s s' → Announced chain s'.db := by
    intro s s' hs hd
    rw [hd.1]
    exact hs
  apply Holds.call
  · exact fun c hc => hc
  · exact fun m s s₁ hc hd hA => ⟨hdrift hc hd, fun _ => announces_queryFilter⟩
  · exact fun hS m s s₁ hc hd hA => ⟨hdrift hc hd, hdrift hc hd⟩

theorem holds_announcedRange {lo hi : ℕ} :
    Holds (servers chain contracts Faulty) A (fun c => Announced chain c.2.db)
      (processBlockRange factory lo hi) (fun _ c => Announced chain c.2.db)
      (fun c => Announced chain c.2.db) := by
  apply holds_processBlockRange_keeps holds_announcements
  · intro log hlog token0 token1 pair n hevent
    obtain ⟨b, hcreated⟩ := hlog token0 token1 pair n hevent
    exact holds_announced (within_handlePairCreated_announced hcreated)
  · intro pair
    exact holds_announced (within_announced (within_indexPairEvents ..))

theorem announcedRule : PassRule chain contracts Faulty A startBlock
    (fun _ c => Coherent c ∧ Announced chain c.2.db)
    (fun _ c => Coherent c ∧ Announced chain c.2.db) (fun s => Announced chain s.db) := by
  refine PassRule.ofHolds (V := Announced chain) ?_ (fun h _ => h)
    fun pair hpair => absurd hpair List.not_mem_nil
  intro lo hi n hhi
  exact holds_announcedRange.mono (fun _ hc => hc.1) (fun _ _ hc => hc) fun _ hc => hc

/-- Every row of a reachable database is of a pair that the factory created no later. -/
theorem created_of_recorded {s : System} (h : Reach startBlock chain contracts Faulty A s)
    {r : LogRef} (hr : r ∈ s.backend.db.recorded) :
    ∃ pair, chain.Emits pair r ∧ ∃ b, b ≤ r.blockNumber ∧ chain.CreatedIn pair b := by
  obtain ⟨pair, hpair, hemits⟩ := traced_of_reach h r hr
  obtain ⟨b, hcreated⟩ := announcedRule.stored_of_reach h pair hpair
  obtain ⟨log, hmined, -, haddress, -⟩ := id hemits
  have hlog : log.toLog ∈ (chain.block r.blockNumber).logs :=
    List.mem_of_getElem? (mem_blockLogs.mp hmined).2
  exact ⟨pair, hemits, b, chain.created_le hcreated ⟨log.toLog, hlog, haddress⟩, hcreated⟩

end EnergyChain.Indexer
