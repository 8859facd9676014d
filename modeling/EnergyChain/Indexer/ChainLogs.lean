import EnergyChain.Indexer.Types

/-!
# The logs of a range of blocks

Every log has a position of its own, and filtering a range by contract and kind
splits it: the positions that several contracts fill are some of all.
-/

namespace EnergyChain.Indexer

def refs (logs : List EventLog) : Multiset LogRef := ↑(logs.map EventLog.ref)

@[simp] theorem refs_nil : refs [] = 0 := rfl

@[simp] theorem refs_cons (log : EventLog) (logs : List EventLog) :
    refs (log :: logs) = {log.ref} + refs logs := by
  simp [refs, ← Multiset.cons_coe]

theorem sum_filter_le {α κ : Type} [DecidableEq κ] (key : α → κ) {ks : List κ} (h : ks.Nodup)
    (s : Multiset α) : (ks.map fun k => s.filter (key · = k)).sum ≤ s := by
  induction ks generalizing s with
  | nil => exact Multiset.zero_le s
  | cons k ks ih =>
    obtain ⟨hk, hks⟩ := List.nodup_cons.mp h
    have hrest : (ks.map fun k' => s.filter (key · = k')).sum =
        (ks.map fun k' => (s.filter (key · ≠ k)).filter (key · = k')).sum := by
      refine congrArg List.sum (List.map_congr_left fun k' hk' => ?_)
      rw [Multiset.filter_filter]
      refine Multiset.filter_congr fun a _ => ?_
      exact ⟨fun ha => ⟨ha, fun hak => hk (hak ▸ ha ▸ hk')⟩, And.left⟩
    rw [List.map_cons, List.sum_cons, hrest]
    calc s.filter (key · = k) + (ks.map fun k' => (s.filter (key · ≠ k)).filter (key · = k')).sum
        ≤ s.filter (key · = k) + s.filter (key · ≠ k) := add_le_add le_rfl (ih hks _)
      _ = s := Multiset.filter_add_not _ s

theorem mem_sum_map {α β : Type} {f : α → Multiset β} {xs : List α} {b : β} :
    b ∈ (xs.map f).sum ↔ ∃ x ∈ xs, b ∈ f x := by
  induction xs with
  | nil => simp
  | cons x xs ih => simp [ih]

variable {factory : Address} {chain : Chain factory}

theorem mem_blockLogs {b : ℕ} {log : EventLog} :
    log ∈ chain.blockLogs b ↔
      log.ref.blockNumber = b ∧ (chain.block b).logs[log.ref.index]? = some log.toLog := by
  simp only [Chain.blockLogs, List.mem_map, Prod.exists, List.mk_mem_zipIdx_iff_getElem?]
  constructor
  · rintro ⟨l, i, hl, rfl⟩
    exact ⟨rfl, hl⟩
  · rintro ⟨rfl, hl⟩
    exact ⟨log.toLog, log.ref.index, hl, rfl⟩

theorem eq_of_ref_eq {log log' : EventLog} (h : log ∈ chain.blockLogs log.ref.blockNumber)
    (h' : log' ∈ chain.blockLogs log'.ref.blockNumber) (href : log.ref = log'.ref) :
    log = log' := by
  have hget := (mem_blockLogs.mp h).2
  rw [href, (mem_blockLogs.mp h').2] at hget
  obtain ⟨l, r⟩ := log
  obtain ⟨l', r'⟩ := log'
  obtain rfl : r = r' := href
  obtain rfl : l' = l := Option.some.inj hget
  rfl

theorem mem_logs {lo hi : ℕ} {log : EventLog} :
    log ∈ chain.logs lo hi ↔ ∃ b, lo ≤ b ∧ b ≤ hi ∧ log ∈ chain.blockLogs b := by
  simp only [Chain.logs, List.mem_flatMap, List.mem_range'_1]
  constructor
  · rintro ⟨b, hb, hlog⟩
    exact ⟨b, hb.1, by omega, hlog⟩
  · rintro ⟨b, hlo, hhi, hlog⟩
    exact ⟨b, ⟨hlo, by omega⟩, hlog⟩

theorem blockNumber_of_mem_refs {lo hi : ℕ} {r : LogRef} (h : r ∈ refs (chain.logs lo hi)) :
    lo ≤ r.blockNumber ∧ r.blockNumber ≤ hi := by
  obtain ⟨log, hlog, rfl⟩ := List.mem_map.mp (Multiset.mem_coe.mp h)
  obtain ⟨b, hlo, hhi, hb⟩ := mem_logs.mp hlog
  rw [(mem_blockLogs.mp hb).1]
  exact ⟨hlo, hhi⟩

theorem map_ref_blockLogs (b : ℕ) : (chain.blockLogs b).map EventLog.ref =
    (List.range' 0 (chain.block b).logs.length).map (LogRef.mk b) := by
  rw [← List.zipIdx_map_snd 0 (chain.block b).logs, Chain.blockLogs, List.map_map, List.map_map]
  rfl

theorem nodup_refs_logs (lo hi : ℕ) : (refs (chain.logs lo hi)).Nodup := by
  apply Multiset.coe_nodup.mpr
  rw [Chain.logs, List.map_flatMap]
  refine List.nodup_flatMap.mpr ⟨fun b _ => ?_, ?_⟩
  · rw [map_ref_blockLogs]
    exact List.Nodup.map (fun i j hij => (LogRef.mk.inj hij).2) (List.nodup_range' ..)
  · refine List.Pairwise.imp (R := (· ≠ ·)) (fun {b b'} hne => ?_) (List.nodup_range' ..)
    rw [Function.onFun, map_ref_blockLogs, map_ref_blockLogs]
    intro r hr hr'
    obtain ⟨i, -, rfl⟩ := List.mem_map.mp hr
    obtain ⟨j, -, hij⟩ := List.mem_map.mp hr'
    exact hne (LogRef.mk.inj hij).1.symm

theorem mem_queryFilter {address : Address} {kind : EventKind} {lo hi : ℕ} {log : EventLog} :
    log ∈ chain.queryFilter address kind lo hi ↔
      log ∈ chain.logs lo hi ∧ log.address = address ∧ log.event.kind = kind := by
  simp [Chain.queryFilter, List.mem_filter]

theorem refs_queryFilter (address : Address) (kind : EventKind) (lo hi : ℕ) :
    refs (chain.queryFilter address kind lo hi) =
      (((chain.logs lo hi : Multiset EventLog).filter (·.address = address)).filter
        (·.event.kind = kind)).map EventLog.ref := by
  rw [Multiset.filter_filter, Multiset.filter_coe, Multiset.map_coe, refs, Chain.queryFilter]
  simp only [and_comm]

/-- The logs of a pair that get rows, as positions on the chain. -/
def pairRefs (chain : Chain factory) (lo hi : ℕ) (pairAddr : Address) : Multiset LogRef :=
  refs (chain.queryFilter pairAddr .swap lo hi) + refs (chain.queryFilter pairAddr .mint lo hi) +
    refs (chain.queryFilter pairAddr .burn lo hi)

theorem pairRefs_le (lo hi : ℕ) (pair : Address) : pairRefs chain lo hi pair ≤
    ((chain.logs lo hi : Multiset EventLog).filter (·.address = pair)).map EventLog.ref := by
  have hkinds : EventKind.recorded.Nodup := by decide
  have hsum := Multiset.map_le_map (f := EventLog.ref) (sum_filter_le
    (fun log : EventLog => log.event.kind) hkinds
    ((chain.logs lo hi : Multiset EventLog).filter (·.address = pair)))
  refine le_trans (le_of_eq ?_) hsum
  simp only [EventKind.recorded, List.map_cons, List.map_nil, List.sum_cons, List.sum_nil, add_zero,
    Multiset.map_add, pairRefs, refs_queryFilter, add_assoc]

theorem sum_pairRefs_le {pairs : List Address} (h : pairs.Nodup) (lo hi : ℕ) :
    (pairs.map (pairRefs chain lo hi)).sum ≤ refs (chain.logs lo hi) := by
  calc (pairs.map (pairRefs chain lo hi)).sum
      ≤ (pairs.map fun pair => ((chain.logs lo hi : Multiset EventLog).filter
          (·.address = pair)).map EventLog.ref).sum :=
        List.sum_le_sum fun pair _ => pairRefs_le lo hi pair
    _ = ((pairs.map fun pair => (chain.logs lo hi : Multiset EventLog).filter
          (·.address = pair)).sum).map EventLog.ref := by
        rw [← Multiset.coe_mapAddMonoidHom, map_list_sum, List.map_map]
        rfl
    _ ≤ (chain.logs lo hi : Multiset EventLog).map EventLog.ref :=
        Multiset.map_le_map (sum_filter_le (fun log : EventLog => log.address) h _)
    _ = refs (chain.logs lo hi) := by rw [Multiset.map_coe, refs]

/-- The pairs whose creation the blocks `lo` to `hi` announce. -/
def Chain.Creates (chain : Chain factory) (lo hi : ℕ) (pair : Address) : Prop :=
  ∃ b, lo ≤ b ∧ b ≤ hi ∧ chain.CreatedIn pair b

end EnergyChain.Indexer
