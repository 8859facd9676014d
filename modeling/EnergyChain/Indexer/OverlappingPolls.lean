import EnergyChain.Indexer.Turns
import EnergyChain.Indexer.Readiness
import EnergyChain.Indexer.Duplicates

/-!
# Overlapping polls move the indexer backwards

Polls that take turns move no cursor backwards and leave the latest reserves behind. In
general a callback that is slower than one that started later undoes what that one did.
-/

namespace EnergyChain.Indexer

section Runs

variable {factory : Address} {startBlock : ℕ} {chain : Chain factory}
  {contracts : Address → TokenContract} {Faulty : Prop} {A : Request → Memory → Backend → Prop}

theorem sound_of_start {s s' : Backend} {m : Memory}
    (h : Reach startBlock chain contracts Faulty A ⟨s, none⟩)
    (hrun : Runs (servers chain contracts Faulty) A (start factory startBlock) (.initial, s)
      (.returned ()) (m, s')) :
    Sound chain s'.head ⟨s', m, []⟩ (fun _ => none) [] := by
  obtain ⟨hpolls, htracks⟩ := holds_start_tracked _ _ _ trivial hrun
  have hlast := (holds_start_withinChain _ _ _ (withinChain_of_reach h _) hrun).1
  have hpolls : m.lastProcessed = some 0 := hpolls
  have hzero : Shared.lastProcessed ⟨s', m, []⟩ = 0 := by
    rw [Shared.lastProcessed, hpolls, Option.getD_some]
  exact
    { first_le := le_rfl
      cursor := hzero.trans_le (Nat.zero_le _)
      processed := fun r hr => absurd hr List.not_mem_nil
      lastBlock := fun last hl => Or.inl (hlast last hl)
      tracked := fun pair hpair => Or.inl ((htracks pair hpair).resolve_right List.not_mem_nil)
      taken := fun pair y hy => absurd hy (Option.not_mem_none y)
      rows := fun row hrow y hy => absurd hy (Option.not_mem_none y)
      covered := fun pair hpair x hx hx' => by
        obtain ⟨r, hr, -⟩ := hx'
        exact absurd hr List.not_mem_nil
      fits := fun c hc => absurd hc List.not_mem_nil }

/-- As long as the callbacks take turns, the cursors do not decrease, and the reserves are
the latest ones when no callback is in progress. -/
theorem polls_in_turn {s s' : Backend} {m : Memory} {p₁ p₂ : Polling}
    (h : Reach startBlock chain contracts Faulty A ⟨s, none⟩)
    (hrun : Runs (servers chain contracts Faulty) A (start factory startBlock) (.initial, s)
      (.returned ()) (m, s'))
    (hfirst : Polls chain contracts (InTurn chain) ⟨⟨s', m, []⟩, []⟩ p₁)
    (hlater : Polls chain contracts (InTurn chain) p₁ p₂) :
    p₁.shared.CursorsLe p₂.shared ∧
      (p₂.running = [] → p₂.shared.LatestReserves chain) := by
  obtain ⟨⟨origin₁, hsound₁⟩, -⟩ := (sound_of_start h hrun).polls (p := ⟨_, _⟩) hfirst
  obtain ⟨⟨origin₂, hsound₂⟩, hcursors⟩ := hsound₁.polls hlater
  refine ⟨hcursors, fun hidle => ?_⟩
  rw [hidle] at hsound₂
  exact hsound₂.latestReserves

end Runs

/-! ### Two callbacks -/

/-- What happens next to a process that polls. -/
inductive Turn where
  | grow (head : ℕ)
  | fire
  | move (k : ℕ)

section Turns

variable {factory : Address} (chain : Chain factory) (contracts : Address → TokenContract)
  (A : Shared → Callback → List Callback → Prop) [∀ w c others, Decidable (A w c others)]

/-- The `k`-th callback goes on, or what else the turn says. -/
def Polling.next (p : Polling) : Turn → Option Polling
  | .grow head =>
    if p.shared.backend.head ≤ head then
      some { p with shared :=
        { p.shared with backend := { p.shared.backend with head } } }
    else none
  | .fire => some { p with running := p.running ++ [.asking] }
  | .move k =>
    match p.running.drop k with
    | [] => none
    | c :: after =>
      if A p.shared c (p.running.take k ++ after) then
        (c.advance chain contracts p.shared).map fun (c', w') =>
          ⟨w', p.running.take k ++ c'.toList ++ after⟩
      else none

def Polling.play (p : Polling) (turns : List Turn) : Option Polling :=
  turns.foldlM (Polling.next chain contracts A) p

variable {chain contracts A}

theorem step_of_next {p p' : Polling} {turn : Turn}
    (h : p.next chain contracts A turn = some p') : Step chain contracts A p p' := by
  obtain ⟨w, running⟩ := p
  cases turn with
  | grow head =>
    simp only [Polling.next] at h
    split_ifs at h with hhead
    obtain rfl := Option.some.inj h
    exact .grow hhead
  | fire =>
    obtain rfl := Option.some.inj h
    exact .fire
  | move k =>
    simp only [Polling.next] at h
    split at h
    · cases h
    · next c after hdrop =>
      split_ifs at h with hA
      obtain ⟨⟨c', w'⟩, hadvance, rfl⟩ := Option.map_eq_some_iff.mp h
      have hrunning : running = running.take k ++ c :: after := by
        rw [← hdrop, List.take_append_drop]
      have hstep : Step chain contracts A ⟨w, running.take k ++ c :: after⟩
          ⟨w', running.take k ++ c'.toList ++ after⟩ := .move hA hadvance
      rwa [← hrunning] at hstep

theorem polls_of_play {p p' : Polling} {turns : List Turn}
    (h : p.play chain contracts A turns = some p') : Polls chain contracts A p p' := by
  induction turns generalizing p with
  | nil =>
    obtain rfl := Option.some.inj h
    exact .refl
  | cons turn turns ih =>
    obtain ⟨q, hq, hrest⟩ := Option.bind_eq_some_iff.mp h
    exact .head (step_of_next hq) (ih hrest)

end Turns

instance {factory : Address} (chain : Chain factory) (w : Shared) (c : Callback)
    (others : List Callback) : Decidable (InTurn chain w c others) := by
  unfold InTurn
  cases c <;> infer_instance

/-- The pair is created in block 1 and announces its reserves in each block. -/
def syncBlock (b : ℕ) : Block where
  timestamp := 1700000000 + b
  logs :=
    if b = 1 then
      [{ address := sampleFactory, transactionHash := 1
         event := .pairCreated ⟨10⟩ ⟨11⟩ samplePair 1 },
        { address := samplePair, transactionHash := 2, event := .sync 5000 5000 }]
    else if b = 2 then
      [{ address := samplePair, transactionHash := 3, event := .sync 5010 4991 }]
    else if b = 3 then
      [{ address := samplePair, transactionHash := 4, event := .sync 5020 4982 }]
    else []

def syncChain : Chain sampleFactory where
  block := syncBlock
  created_le := by
    rintro pair b c ⟨log, hlog, hcreates⟩ ⟨log', hlog', -⟩
    have hb : 1 ≤ b := by
      by_contra hb
      obtain rfl : b = 0 := by omega
      exact absurd hlog' List.not_mem_nil
    simp only [syncBlock] at hlog
    split_ifs at hlog with h1 h2 h3
    · omega
    · obtain rfl := List.mem_singleton.mp hlog
      exact absurd hcreates.1 (by decide +kernel)
    · obtain rfl := List.mem_singleton.mp hlog
      exact absurd hcreates.1 (by decide +kernel)
    · cases hlog

/-- The process starts when block 1 is there. -/
def syncStart : Memory × Backend :=
  ((start sampleFactory 0).exec (servers syncChain sampleContracts False)
    (.initial, ⟨.empty, 1⟩)).2

theorem syncStart_runs : Runs (servers syncChain sampleContracts False) (fun _ _ _ => True)
    (start sampleFactory 0) (.initial, ⟨.empty, 1⟩) (.returned ()) syncStart := by
  have hrun := Runs.exec (S := servers syncChain sampleContracts False)
    (A := fun _ _ _ => True) (p := start sampleFactory 0) (c := (.initial, ⟨.empty, 1⟩))
    (fun s => ⟨rfl, le_rfl⟩) (by decide +kernel)
  rwa [show ((start sampleFactory 0).exec (servers syncChain sampleContracts False)
    (.initial, ⟨.empty, 1⟩)).1 = .returned () by decide +kernel] at hrun

/-- The process begins to poll. -/
def syncPolling : Polling := ⟨⟨syncStart.2, syncStart.1, []⟩, []⟩

/-- The first callback begins with block 2, and the second one with block 3. -/
def bothBegun : List Turn :=
  [.grow 2, .fire, .move 0, .move 0, .grow 3, .fire, .move 1, .move 1]

/-- The `k`-th callback in progress goes on to its end. -/
def finishing (k : ℕ) : List Turn := List.replicate 5 (.move k)

/-- Where the turns lead, if each is possible and in turn as `A` says. -/
def syncPolled (A : Shared → Callback → List Callback → Prop)
    [∀ w c others, Decidable (A w c others)] (turns : List Turn) : Polling :=
  (syncPolling.play syncChain sampleContracts A turns).getD syncPolling

section Played

variable {A : Shared → Callback → List Callback → Prop} [∀ w c others, Decidable (A w c others)]
  {turns later : List Turn}

theorem polls_syncPolled
    (h : (syncPolling.play syncChain sampleContracts A turns).isSome) :
    Polls syncChain sampleContracts A syncPolling (syncPolled A turns) := by
  obtain ⟨p, hp⟩ := Option.isSome_iff_exists.mp h
  rw [syncPolled, hp]
  exact polls_of_play hp

theorem polls_syncPolled_append
    (h : (syncPolling.play syncChain sampleContracts A (turns ++ later)).isSome) :
    Polls syncChain sampleContracts A (syncPolled A turns) (syncPolled A (turns ++ later)) := by
  obtain ⟨p₂, h₂⟩ := Option.isSome_iff_exists.mp h
  have hsplit := h₂
  rw [Polling.play, List.foldlM_append] at hsplit
  obtain ⟨p₁, h₁, hlater⟩ := Option.bind_eq_some_iff.mp hsplit
  have h₁ : syncPolling.play syncChain sampleContracts A turns = some p₁ := h₁
  rw [syncPolled, syncPolled, h₁, h₂]
  exact polls_of_play hlater

end Played

/-- The first callback ends first. -/
theorem polls_in_turn_sample :
    (syncPolled (InTurn syncChain) (bothBegun ++ finishing 0)).shared.CursorsLe
        (syncPolled (InTurn syncChain) (bothBegun ++ finishing 0 ++ finishing 0)).shared ∧
      (syncPolled (InTurn syncChain)
        (bothBegun ++ finishing 0 ++ finishing 0)).shared.LatestReserves syncChain := by
  have hfirst : Polls syncChain sampleContracts (InTurn syncChain) syncPolling
      (syncPolled (InTurn syncChain) (bothBegun ++ finishing 0)) :=
    polls_syncPolled (by decide +kernel)
  have hlater : Polls syncChain sampleContracts (InTurn syncChain)
      (syncPolled (InTurn syncChain) (bothBegun ++ finishing 0))
      (syncPolled (InTurn syncChain) (bothBegun ++ finishing 0 ++ finishing 0)) :=
    polls_syncPolled_append (by decide +kernel)
  have hpolls := polls_in_turn (.initial 1) syncStart_runs hfirst hlater
  exact ⟨hpolls.1, hpolls.2 (by decide +kernel)⟩

/-- The second callback ends first. The first one sets the cursors from block 3 back to
block 2, and replaces the reserves of block 3 by those of block 2. -/
theorem polls_move_backwards :
    ∃ s m s' p₁ p₂, Reach 0 syncChain sampleContracts False (fun _ _ _ => True) ⟨s, none⟩ ∧
      Runs (servers syncChain sampleContracts False) (fun _ _ _ => True) (start sampleFactory 0)
        (.initial, s) (.returned ()) (m, s') ∧
      Polls syncChain sampleContracts (fun _ _ _ => True) ⟨⟨s', m, []⟩, []⟩ p₁ ∧
      Polls syncChain sampleContracts (fun _ _ _ => True) p₁ p₂ ∧
      p₂.shared.lastProcessed < p₁.shared.lastProcessed ∧
      p₁.shared.backend.db.lastBlock = some 3 ∧ p₂.shared.backend.db.lastBlock = some 2 ∧
      p₂.running = [] ∧ ¬ p₂.shared.LatestReserves syncChain := by
  refine ⟨⟨.empty, 1⟩, syncStart.1, syncStart.2,
    syncPolled (fun _ _ _ => True) (bothBegun ++ finishing 1),
    syncPolled (fun _ _ _ => True) (bothBegun ++ finishing 1 ++ finishing 0),
    .initial 1, syncStart_runs, polls_syncPolled (by decide +kernel),
    polls_syncPolled_append (by decide +kernel), by decide +kernel, by decide +kernel,
    by decide +kernel, by decide +kernel, fun hlatest => ?_⟩
  have hrow := hlatest
    { address := samplePair, token0Addr := ⟨10⟩, token1Addr := ⟨11⟩, reserve0 := "5010"
      reserve1 := "4991", blockNumber := 1 } (by decide +kernel)
    { address := samplePair, transactionHash := 4, event := .sync 5020 4982, ref := ⟨3, 0⟩ }
    ⟨by decide +kernel, rfl, rfl⟩ ⟨(3, 3), by decide +kernel, le_rfl, le_rfl⟩ ?_ 5020 4982 rfl
  · exact absurd hrow.1 (by decide +kernel)
  · rintro log hlog ⟨r, hr, -, hhi⟩
    have hranges : ∀ r ∈ (syncPolled (fun _ _ _ => True)
        (bothBegun ++ finishing 1 ++ finishing 0)).shared.processed, r.2 ≤ 3 := by
      decide +kernel
    have hblock := hhi.trans (hranges r hr)
    rcases hblock.lt_or_eq with hlt | heq
    · exact (LogRef.pos_lt_of_block hlt).le
    · have hmined := hlog.mined
      rw [heq] at hmined
      have hlogs : syncChain.blockLogs 3 = [{ address := samplePair, transactionHash := 4
                                              event := .sync 5020 4982, ref := ⟨3, 0⟩ }] := by
        decide +kernel
      rw [hlogs] at hmined
      rw [List.mem_singleton.mp hmined]

end EnergyChain.Indexer
