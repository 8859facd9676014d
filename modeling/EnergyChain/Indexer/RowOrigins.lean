import EnergyChain.Indexer.Cursors

/-!
# Where rows come from

In every state the indexer reaches, each row was created from an event that a
pair in the database emitted. No row is made up.
-/

namespace EnergyChain.Indexer

variable {factory : Address} {chain : Chain factory} {contracts : Address → TokenContract}
  {Faulty : Prop} {A : Request → Memory → Backend → Prop} {startBlock : ℕ}

/-- The position is that of an event of the pair that gets a row. -/
def Chain.Emits (chain : Chain factory) (pair : Address) (r : LogRef) : Prop :=
  ∃ log ∈ chain.blockLogs r.blockNumber, log.ref = r ∧ log.address = pair ∧
    log.event.kind ∈ EventKind.recorded

theorem mem_pairRefs {lo hi : ℕ} {pair : Address} {r : LogRef} :
    r ∈ pairRefs chain lo hi pair ↔
      lo ≤ r.blockNumber ∧ r.blockNumber ≤ hi ∧ chain.Emits pair r := by
  have hquery : ∀ kind, r ∈ refs (chain.queryFilter pair kind lo hi) ↔
      ∃ log ∈ chain.logs lo hi, log.ref = r ∧ log.address = pair ∧ log.event.kind = kind := by
    intro kind
    simp only [refs, Multiset.mem_coe, List.mem_map, mem_queryFilter]
    constructor
    · rintro ⟨log, ⟨hlog, haddress, hkind⟩, href⟩
      exact ⟨log, hlog, href, haddress, hkind⟩
    · rintro ⟨log, hlog, href, haddress, hkind⟩
      exact ⟨log, ⟨hlog, haddress, hkind⟩, href⟩
  simp only [pairRefs, Multiset.mem_add, hquery, Chain.Emits, EventKind.recorded, List.mem_cons,
    List.not_mem_nil, or_false]
  constructor
  · have hone : ∀ {kind}, kind = .swap ∨ kind = .mint ∨ kind = .burn →
        (∃ log ∈ chain.logs lo hi, log.ref = r ∧ log.address = pair ∧ log.event.kind = kind) →
        lo ≤ r.blockNumber ∧ r.blockNumber ≤ hi ∧ ∃ log ∈ chain.blockLogs r.blockNumber,
          log.ref = r ∧ log.address = pair ∧
          (log.event.kind = .swap ∨ log.event.kind = .mint ∨ log.event.kind = .burn) := by
      rintro kind hkind ⟨log, hlog, rfl, haddress, rfl⟩
      obtain ⟨b, hlo, hhi, hb⟩ := mem_logs.mp hlog
      obtain rfl := (mem_blockLogs.mp hb).1
      exact ⟨hlo, hhi, log, hb, rfl, haddress, hkind⟩
    rintro ((h | h) | h)
    · exact hone (.inl rfl) h
    · exact hone (.inr (.inl rfl)) h
    · exact hone (.inr (.inr rfl)) h
  · rintro ⟨hlo, hhi, log, hb, rfl, haddress, hkind⟩
    have hlog : log ∈ chain.logs lo hi := mem_logs.mpr ⟨_, hlo, hhi, hb⟩
    obtain hkind | hkind | hkind := hkind
    · exact .inl (.inl ⟨log, hlog, rfl, haddress, hkind⟩)
    · exact .inl (.inr ⟨log, hlog, rfl, haddress, hkind⟩)
    · exact .inr ⟨log, hlog, rfl, haddress, hkind⟩

/-- Every row was created from an event of one of the pairs. -/
def Traced (chain : Chain factory) (pairs : List Address) (db : Database) : Prop :=
  ∀ r ∈ db.recorded, ∃ pair ∈ pairs, chain.Emits pair r

theorem Traced.mono {pairs pairs' : List Address} {db : Database} (h : Traced chain pairs db)
    (hsub : pairs ⊆ pairs') : Traced chain pairs' db := by
  intro r hr
  obtain ⟨pair, hpair, hemits⟩ := h r hr
  exact ⟨pair, hsub hpair, hemits⟩

theorem tracedRule : PassRule chain contracts Faulty A startBlock
    (fun _ c => Coherent c ∧ Traced chain c.1.trackedPairs c.2.db)
    (fun _ c => Coherent c ∧ Traced chain c.1.trackedPairs c.2.db)
    (fun s => Traced chain s.db.pairAddresses s.db) := by
  refine PassRule.ofInvariant ?_ Traced.mono (fun h _ => h)
    fun r hr => absurd hr (Multiset.notMem_zero _)
  intro lo hi m m' s s' pairs htraced _ _ _ hsub hbounded r hr
  obtain hold | hnew := Multiset.mem_add.mp (Multiset.mem_of_le hbounded.2 hr)
  · exact htraced.mono hbounded.1.tracked r hold
  · obtain ⟨pair, hpair, hmem⟩ := mem_sum_map.mp hnew
    exact ⟨pair, hsub hpair, (mem_pairRefs.mp hmem).2.2⟩

/-- Every row of a reachable database was created from an event of one of its pairs. -/
theorem traced_of_reach {s : System} (h : Reach startBlock chain contracts Faulty A s) :
    Traced chain s.backend.db.pairAddresses s.backend.db :=
  tracedRule.stored_of_reach h

end EnergyChain.Indexer
