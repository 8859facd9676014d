import EnergyChain.Indexer.Callbacks
import EnergyChain.Indexer.ChainLogs
import Mathlib.Data.Prod.Lex

/-!
# The latest Sync log

Logs are ordered by their positions on the chain. The `Sync` log that a callback takes
the reserves of a pair from is the latest one of the pair up to the end of its range.
-/

namespace EnergyChain.Indexer

/-- The place of a log in the order of the chain. -/
def LogRef.pos (r : LogRef) : ℕ ×ₗ ℕ := toLex (r.blockNumber, r.index)

theorem LogRef.pos_lt_of_block {r r' : LogRef} (h : r.blockNumber < r'.blockNumber) :
    r.pos < r'.pos :=
  Prod.Lex.toLex_lt_toLex.mpr (Or.inl h)

variable {factory : Address} (chain : Chain factory)

/-- A log of the chain by which a pair announces its reserves. -/
structure Chain.SyncOf (pairAddr : Address) (log : EventLog) : Prop where
  mined : log ∈ chain.blockLogs log.ref.blockNumber
  address : log.address = pairAddr
  kind : log.event.kind = .sync

variable {chain} {pairAddr : Address} {lo hi : ℕ} {log log' : EventLog}

theorem ref_eq_of_pos_eq {r r' : LogRef} (h : r.pos = r'.pos) : r = r' := by
  have hrefs : (r.blockNumber, r.index) = (r'.blockNumber, r'.index) := toLex.injective h
  obtain ⟨hblock, hindex⟩ := Prod.mk.inj hrefs
  cases r
  cases r'
  simp_all

theorem pairwise_blockLogs (b : ℕ) :
    (chain.blockLogs b).Pairwise fun x y => x.ref.pos < y.ref.pos := by
  have hrefs : (chain.blockLogs b).map EventLog.ref =
      (List.range' 0 (chain.block b).logs.length).map (LogRef.mk b) := map_ref_blockLogs b
  rw [← List.pairwise_map (f := EventLog.ref) (R := fun r r' : LogRef => r.pos < r'.pos), hrefs,
    List.pairwise_map]
  refine List.Pairwise.imp (fun {i j} hlt => ?_) (List.pairwise_lt_range' ..)
  exact Prod.Lex.toLex_lt_toLex.mpr (Or.inr ⟨rfl, hlt⟩)

theorem pairwise_logs (lo hi : ℕ) :
    (chain.logs lo hi).Pairwise fun x y => x.ref.pos < y.ref.pos := by
  refine List.pairwise_flatMap.mpr ⟨fun b _ => pairwise_blockLogs b, ?_⟩
  refine List.Pairwise.imp (fun {b b'} hlt => ?_) (List.pairwise_lt_range' ..)
  intro x hx y hy
  apply LogRef.pos_lt_of_block
  rwa [(mem_blockLogs.mp hx).1, (mem_blockLogs.mp hy).1]

theorem mem_queryFilter_sync : log ∈ chain.queryFilter pairAddr .sync lo hi ↔
    chain.SyncOf pairAddr log ∧ lo ≤ log.ref.blockNumber ∧ log.ref.blockNumber ≤ hi := by
  rw [mem_queryFilter, mem_logs]
  constructor
  · rintro ⟨⟨b, hlo, hhi, hb⟩, haddress, hkind⟩
    obtain rfl := (mem_blockLogs.mp hb).1
    exact ⟨⟨hb, haddress, hkind⟩, hlo, hhi⟩
  · rintro ⟨⟨hmined, haddress, hkind⟩, hlo, hhi⟩
    exact ⟨⟨_, hlo, hhi, hmined⟩, haddress, hkind⟩

theorem Chain.SyncOf.event (h : chain.SyncOf pairAddr log) :
    ∃ reserve0 reserve1, log.event = .sync reserve0 reserve1 := by
  have hkind := h.kind
  cases hevent : log.event with
  | sync reserve0 reserve1 => exact ⟨reserve0, reserve1, rfl⟩
  | _ =>
    rw [hevent] at hkind
    cases hkind

theorem lastSync_eq_some (h : chain.lastSync pairAddr lo hi = some log) :
    chain.SyncOf pairAddr log ∧ (lo ≤ log.ref.blockNumber ∧ log.ref.blockNumber ≤ hi) ∧
      ∀ x, chain.SyncOf pairAddr x → x.ref.blockNumber ≤ hi → x.ref.pos ≤ log.ref.pos := by
  obtain ⟨hlog, hlo, hhi⟩ := mem_queryFilter_sync.mp (List.mem_of_getLast? h)
  refine ⟨hlog, ⟨hlo, hhi⟩, fun x hx hxhi => ?_⟩
  by_cases hxlo : lo ≤ x.ref.blockNumber
  · have hsorted : (chain.queryFilter pairAddr .sync lo hi).Pairwise
        fun x y => x.ref.pos < y.ref.pos := (pairwise_logs lo hi).filter _
    have hmem := mem_queryFilter_sync.mpr ⟨hx, hxlo, hxhi⟩
    obtain ⟨front, hfront⟩ := List.getLast?_eq_some_iff.mp h
    rw [hfront] at hsorted hmem
    rcases List.mem_append.mp hmem with hmem | hmem
    · exact ((List.pairwise_append.mp hsorted).2.2 x hmem log List.mem_cons_self).le
    · rw [List.mem_singleton.mp hmem]
  · exact (LogRef.pos_lt_of_block (by omega)).le

theorem lastSync_eq_none (h : chain.lastSync pairAddr lo hi = none)
    (hlog : chain.SyncOf pairAddr log) (hlo : lo ≤ log.ref.blockNumber) :
    hi < log.ref.blockNumber := by
  by_contra hhi
  have hmem := mem_queryFilter_sync.mpr ⟨hlog, hlo, not_lt.mp hhi⟩
  rw [List.getLast?_eq_none_iff.mp h] at hmem
  exact absurd hmem List.not_mem_nil

end EnergyChain.Indexer
