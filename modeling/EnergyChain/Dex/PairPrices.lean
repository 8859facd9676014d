import EnergyChain.Dex.PairRecords
import EnergyChain.Dex.PairSafety

/-!
# The price accumulators of a pair

The accumulators are sums over time of the prices in force. Both the clock and the
sums wrap; up to multiples of the size of a word they are exact over every run in
which no more than a turn of the clock lies between two updates of the reserves.
-/

namespace EnergyChain.Dex

open TimeWeighted

variable {pool : Pool}

/-- New reserves, stored in a block of this time. -/
structure ReserveUpdate where
  timestamp : ℕ
  reserve0 : ℕ
  reserve1 : ℕ

namespace ReserveUpdate

/-- The price of the first token from the update on. -/
def sample0 (u : ReserveUpdate) : Sample := ⟨u.timestamp, countedPrice u.reserve0 u.reserve1⟩

/-- The price of the second token from the update on. -/
def sample1 (u : ReserveUpdate) : Sample := ⟨u.timestamp, countedPrice u.reserve1 u.reserve0⟩

end ReserveUpdate

section Runs

variable (keccak256 : Bytes → Bytes) (ecrecover : Bytes → Signature → Address)

def updateOf (w : World) (m : Block × Call pool) : List ReserveUpdate :=
  if (deliver keccak256 ecrecover).Accepts w m ∧ m.2.updates = true then
    [{ timestamp := m.1.timestamp
       reserve0 := (deliver keccak256 ecrecover w m).1.pair.reserve0
       reserve1 := (deliver keccak256 ecrecover w m).1.pair.reserve1 }]
  else []

def updatesOf (w : World) : List (Block × Call pool) → List ReserveUpdate
  | [] => []
  | m :: ms => updateOf keccak256 ecrecover w m ++
      updatesOf (deliver keccak256 ecrecover w m).1 ms

variable {w : World}

theorem updatesOf_append (w : World) (ms ms' : List (Block × Call pool)) :
    updatesOf keccak256 ecrecover w (ms ++ ms') = updatesOf keccak256 ecrecover w ms ++
      updatesOf keccak256 ecrecover ((deliver keccak256 ecrecover).run w ms) ms' := by
  induction ms generalizing w with
  | nil => rfl
  | cons m ms ih => rw [List.cons_append, updatesOf, ih, updatesOf, List.append_assoc,
      Handler.run_cons]

theorem updatesOf_timestamps (w : World) (ms : List (Block × Call pool)) :
    ((updatesOf keccak256 ecrecover w ms).map ReserveUpdate.timestamp).Sublist
      (ms.map fun m => m.1.timestamp) := by
  induction ms generalizing w with
  | nil => exact List.Sublist.refl _
  | cons m ms ih =>
    rw [updatesOf, updateOf]
    split_ifs
    · exact (ih _).cons_cons _
    · exact (ih _).cons _

/-- The reserves are those of the last update, and so is the time. -/
def Current (w : World) : Option ReserveUpdate → Prop
  | none => w.pair.reserve0 = 0 ∧ w.pair.reserve1 = 0
  | some u => w.pair.reserve0 = u.reserve0 ∧ w.pair.reserve1 = u.reserve1 ∧
      w.pair.blockTimestampLast = u.timestamp % 2 ^ 32

theorem Current.of_quiet {w' : World} {last : Option ReserveUpdate} (h : Current w last)
    (hquiet : Quiet w.pair w'.pair) : Current w' last := by
  cases last with
  | none => exact ⟨hquiet.reserve0.trans h.1, hquiet.reserve1.trans h.2⟩
  | some u => exact ⟨hquiet.reserve0.trans h.1, hquiet.reserve1.trans h.2.1,
      hquiet.time.trans h.2.2⟩

/-- A transaction makes one update of the reserves or none. -/
theorem deliver_update (hw : Settled pool w) (m : Block × Call pool) :
    (updateOf keccak256 ecrecover w m = [] ∧
      Quiet w.pair (deliver keccak256 ecrecover w m).1.pair) ∨
    ∃ u, updateOf keccak256 ecrecover w m = [u] ∧ u.timestamp = m.1.timestamp ∧
      Updated m.1 w.pair (deliver keccak256 ecrecover w m).1.pair ∧
      Current (deliver keccak256 ecrecover w m).1 (some u) := by
  rcases deliver_cases keccak256 ecrecover w m with ⟨hrejected, hsame⟩ | ⟨haccepted, h⟩
  · refine Or.inl ⟨if_neg fun hacc => hrejected hacc.1, ?_⟩
    rw [hsame]
    exact .refl _
  · have hmade : ∀ hc : m.2.updates = true,
        Updated m.1 w.pair (deliver keccak256 ecrecover w m).1.pair →
        ∃ u, updateOf keccak256 ecrecover w m = [u] ∧ u.timestamp = m.1.timestamp ∧
          Updated m.1 w.pair (deliver keccak256 ecrecover w m).1.pair ∧
          Current (deliver keccak256 ecrecover w m).1 (some u) := by
      intro hc hupdated
      exact ⟨_, if_pos ⟨haccepted, hc⟩, rfl, hupdated, rfl, rfl, hupdated.time⟩
    cases execute_recorded hw h with
    | event hc hevent =>
      have hupdates : m.2.updates = true := by
        cases hm : m.2 <;> simp_all [Call.movesLiquidity, Call.updates]
      exact Or.inr (hmade hupdates hevent.updated)
    | trade hc _ htraded => exact Or.inr (hmade hc htraded.updated)
    | quiet hc hquiet _ => exact Or.inl ⟨if_neg (by simp [hc]), hquiet⟩

theorem run_current (hw : Settled pool w) {last : Option ReserveUpdate} (hcurrent : Current w last)
    (ms : List (Block × Call pool)) : Current ((deliver keccak256 ecrecover).run w ms)
      ((updatesOf keccak256 ecrecover w ms).getLast?.or last) := by
  induction ms generalizing w last with
  | nil => exact hcurrent
  | cons m ms ih =>
    have hsettled := (deliver_effect keccak256 ecrecover hw m).1
    rw [Handler.run_cons, updatesOf]
    rcases deliver_update keccak256 ecrecover hw m with ⟨hnone, hquiet⟩ | ⟨u, hu, -, -, hafter⟩
    · rw [hnone, List.nil_append]
      exact ih hsettled (hcurrent.of_quiet hquiet)
    · have hrest := ih hsettled hafter
      rw [hu, List.getLast?_append, Option.or_assoc]
      exact hrest

/-- What one update adds to the two accumulators: the prices at the reserves before
it, for the time since the last update. -/
theorem counted_since {last : Option ReserveUpdate} {u : ReserveUpdate} (hcurrent : Current w last)
    (hle : ∀ v ∈ last, v.timestamp ≤ u.timestamp)
    (hlt : ∀ v ∈ last, u.timestamp < v.timestamp + 2 ^ 32) (rest : List ReserveUpdate) :
    countedPrice w.pair.reserve0 w.pair.reserve1 *
        elapsed (u.timestamp % 2 ^ 32) w.pair.blockTimestampLast +
      sum ((u :: rest).map ReserveUpdate.sample0) =
        sum ((last.toList ++ u :: rest).map ReserveUpdate.sample0) ∧
    countedPrice w.pair.reserve1 w.pair.reserve0 *
        elapsed (u.timestamp % 2 ^ 32) w.pair.blockTimestampLast +
      sum ((u :: rest).map ReserveUpdate.sample1) =
        sum ((last.toList ++ u :: rest).map ReserveUpdate.sample1) := by
  cases last with
  | none =>
    obtain ⟨h₀, h₁⟩ := hcurrent
    simp [countedPrice, h₀, h₁]
  | some v =>
    obtain ⟨h₀, h₁, htime⟩ := hcurrent
    have helapsed : elapsed (u.timestamp % 2 ^ 32) w.pair.blockTimestampLast =
        u.timestamp - v.timestamp := by
      rw [htime]
      exact ticks_mod_eq (hle v rfl) (hlt v rfl)
    rw [helapsed, h₀, h₁]
    exact ⟨rfl, rfl⟩

theorem run_prices (hw : Settled pool w) {last : Option ReserveUpdate} (hcurrent : Current w last)
    (ms : List (Block × Call pool))
    (hle : (last.toList ++ updatesOf keccak256 ecrecover w ms).IsChain
      fun u v => u.timestamp ≤ v.timestamp)
    (hlt : (last.toList ++ updatesOf keccak256 ecrecover w ms).IsChain
      fun u v => v.timestamp < u.timestamp + 2 ^ 32) :
    ((deliver keccak256 ecrecover).run w ms).pair.price0CumulativeLast ≡
      w.pair.price0CumulativeLast + sum ((last.toList ++
        updatesOf keccak256 ecrecover w ms).map ReserveUpdate.sample0) [MOD uint256Size] ∧
    ((deliver keccak256 ecrecover).run w ms).pair.price1CumulativeLast ≡
      w.pair.price1CumulativeLast + sum ((last.toList ++
        updatesOf keccak256 ecrecover w ms).map ReserveUpdate.sample1) [MOD uint256Size] := by
  induction ms generalizing w last with
  | nil =>
    cases last with
    | none => exact ⟨Nat.ModEq.refl _, Nat.ModEq.refl _⟩
    | some v => exact ⟨Nat.ModEq.refl _, Nat.ModEq.refl _⟩
  | cons m ms ih =>
    have hsettled := (deliver_effect keccak256 ecrecover hw m).1
    rw [Handler.run_cons]
    rw [updatesOf] at hle hlt ⊢
    rcases deliver_update keccak256 ecrecover hw m with
      ⟨hnone, hquiet⟩ | ⟨u, hu, htime, hupdated, hafter⟩
    · rw [hnone, List.nil_append] at hle hlt ⊢
      rw [← hquiet.price0, ← hquiet.price1]
      exact ih hsettled (hcurrent.of_quiet hquiet) hle hlt
    · rw [hu, List.singleton_append] at hle hlt ⊢
      obtain ⟨hsum₀, hsum₁⟩ := counted_since hcurrent (u := u)
        (fun v hv => by obtain rfl := hv; exact (List.isChain_cons_cons.mp hle).1)
        (fun v hv => by obtain rfl := hv; exact (List.isChain_cons_cons.mp hlt).1)
        (updatesOf keccak256 ecrecover (deliver keccak256 ecrecover w m).1 ms)
      obtain ⟨hrest₀, hrest₁⟩ := ih hsettled hafter hle.right_of_append
        hlt.right_of_append
      have h₀ := hupdated.price0
      have h₁ := hupdated.price1
      rw [← htime] at h₀ h₁
      rw [← hsum₀, ← hsum₁, ← Nat.add_assoc, ← Nat.add_assoc]
      exact ⟨hrest₀.trans (h₀.add_right _), hrest₁.trans (h₁.add_right _)⟩

/-- Between any two states of a run the accumulators change by the sums over the
time between, up to multiples of the size of a word: the sum runs over the updates
after the first state, from the last one before it on. -/
theorem price_accumulators (chainid : ℕ) (token0 token1 : TradedToken pool)
    (factory : FeeSetting) (pre post : List (Block × Call pool))
    (hordered : ((pre ++ post).map fun m => m.1.timestamp).Pairwise (· ≤ ·))
    (hapart : (updatesOf keccak256 ecrecover (.deployed keccak256 chainid token0 token1 factory)
      (pre ++ post)).IsChain fun u v => v.timestamp < u.timestamp + 2 ^ 32) :
    let reach := reached keccak256 ecrecover chainid token0 token1 factory
    let updates := (updatesOf keccak256 ecrecover
        (.deployed keccak256 chainid token0 token1 factory) pre).getLast?.toList ++
      updatesOf keccak256 ecrecover (reach pre) post
    (reach (pre ++ post)).pair.price0CumulativeLast ≡ (reach pre).pair.price0CumulativeLast +
      sum (updates.map ReserveUpdate.sample0) [MOD 2 ^ 256] ∧
    (reach (pre ++ post)).pair.price1CumulativeLast ≡ (reach pre).pair.price1CumulativeLast +
      sum (updates.map ReserveUpdate.sample1) [MOD 2 ^ 256] := by
  intro reach updates
  have hle : (updatesOf keccak256 ecrecover (.deployed keccak256 chainid token0 token1 factory)
      (pre ++ post)).IsChain fun u v => u.timestamp ≤ v.timestamp := by
    have hsorted := hordered.sublist (updatesOf_timestamps keccak256 ecrecover
      (.deployed keccak256 chainid token0 token1 factory) (pre ++ post))
    exact (List.pairwise_map.mp hsorted).isChain
  rw [updatesOf_append] at hle hapart
  have hnew : Current (World.deployed keccak256 chainid token0 token1 factory) none := ⟨rfl, rfl⟩
  have hcurrent := run_current keccak256 ecrecover
    (deployed_settled keccak256 chainid token0 token1 factory) hnew pre
  rw [Option.or_none] at hcurrent
  have hrun := run_prices keccak256 ecrecover
    (reached_settled keccak256 ecrecover chainid token0 token1 factory pre) hcurrent post
    (isChain_getLast_append hle) (isChain_getLast_append hapart)
  simp only [reach, reached, Handler.run_append]
  exact hrun

end Runs

/-- A swap five seconds after the first mint, and a sync three seconds later. -/
theorem price_accumulators_sample :
    let post : List (Block × Call samplePool) :=
      [(⟨1700000005, 2⟩, sampleFlashSwap), (⟨1700000008, 3⟩, .sync)]
    (sampleReached (sampleMint ++ post)).pair.price0CumulativeLast ≡
      (sampleReached sampleMint).pair.price0CumulativeLast +
        (2 ^ 112 * 5 + 9100 * 2 ^ 112 / 11000 * 3) [MOD 2 ^ 256] := by
  intro post
  have hsum : sum (((updatesOf sampleKeccak256 sampleEcrecover
        (.deployed sampleKeccak256 262144 sampleToken sampleToken ⟨.zero, ⟨9⟩⟩)
        sampleMint).getLast?.toList ++
      updatesOf sampleKeccak256 sampleEcrecover (sampleReached sampleMint) post).map
        ReserveUpdate.sample0) = 2 ^ 112 * 5 + 9100 * 2 ^ 112 / 11000 * 3 := by decide +kernel
  rw [← hsum]
  exact (price_accumulators sampleKeccak256 sampleEcrecover 262144 sampleToken sampleToken
    ⟨.zero, ⟨9⟩⟩ sampleMint post (by decide +kernel) (by decide +kernel)).1

end EnergyChain.Dex
