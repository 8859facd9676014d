import EnergyChain.Dex.Quotes
import EnergyChain.Dex.Registry

/-!
# Quotes along a path

What the library answers for a path is made of its answers for the pairs of the
path. More in gives no less out, the input that is asked for an output gives it, and
no path gives back more than was put in.
-/

namespace EnergyChain.Dex

open Library

variable {c : Chain} {input output : Address} {rest path : List Address} {amounts outs : List ℕ}
  {x x' y z : ℕ}

theorem forall₂_getLast {α β : Type} {R : α → β → Prop} {as : List α} {bs : List β} {a : α}
    (h : List.Forall₂ R as bs) (ha : as.getLast? = some a) :
    ∃ b, bs.getLast? = some b ∧ R a b := by
  induction h with
  | nil => cases ha
  | @cons a' b as bs hR hrest ih =>
    cases hrest with
    | nil =>
      obtain rfl : a' = a := by simpa using ha
      exact ⟨b, rfl, hR⟩
    | cons hR' hrest =>
      obtain ⟨b', hb', hlast⟩ := ih (by simpa using ha)
      exact ⟨b', by simpa using hb', hlast⟩

namespace Chain

/-! ### More gives no less -/

theorem getAmountOut_mono {r s : ℕ} (hle : x ≤ x') (hy : getAmountOut x r s = .ok y)
    (hz : getAmountOut x' r s = .ok z) : y ≤ z := by
  obtain ⟨-, hr, -, rfl⟩ := getAmountOut_ok hy
  obtain ⟨-, -, -, rfl⟩ := getAmountOut_ok hz
  apply ConstantProduct.amountOut_mono _ hle
  omega

/-- By induction on the path: each pair is given no less, and gives no less. -/
theorem amountsOutFrom_mono (hle : x ≤ x') (h : amountsOutFrom c x path = .ok amounts)
    (h' : amountsOutFrom c x' path = .ok outs) : List.Forall₂ (· ≤ ·) amounts outs := by
  induction path generalizing x x' amounts outs with
  | nil =>
    obtain rfl := Except.ok.inj h
    obtain rfl := Except.ok.inj h'
    exact .cons hle .nil
  | cons input rest ih =>
    cases rest with
    | nil =>
      obtain rfl := Except.ok.inj h
      obtain rfl := Except.ok.inj h'
      exact .cons hle .nil
    | cons output rest =>
      obtain ⟨r, s, y, as, hreserves, hy, has, rfl⟩ := amountsOutFrom_cons h
      obtain ⟨r', s', z, os, hreserves', hz, hos, rfl⟩ := amountsOutFrom_cons h'
      obtain ⟨rfl, rfl⟩ := Prod.mk.inj (Except.ok.inj (hreserves.symm.trans hreserves'))
      exact .cons hle (ih (getAmountOut_mono hle hy hz) has hos)

/-! ### What is asked for an output -/

theorem getAmountIn_ok {r s : ℕ} (h : getAmountIn y r s = .ok x) :
    0 < y ∧ 0 < r ∧ y < s ∧ x = ConstantProduct.amountIn 997 1000 y r s := by
  simp only [getAmountIn, except_bind_ok_iff, require_ok_iff, checkedMul_ok_iff, checkedSub_ok_iff,
    checkedAdd_ok_iff, checkedDiv_ok_iff] at h
  obtain ⟨-, hy, -, ⟨hr, hs⟩, _, ⟨-, rfl⟩, _, ⟨-, rfl⟩, _, ⟨hle, rfl⟩, _, ⟨-, rfl⟩, _, ⟨hne, rfl⟩,
    -, rfl⟩ := h
  refine ⟨hy, hr, ?_, rfl⟩
  omega

theorem amountsInFrom_cons (h : amountsInFrom c y (input :: output :: rest) = .ok amounts) :
    ∃ r s x z as, amountsInFrom c y (output :: rest) = .ok (z :: as) ∧
      Library.getReserves c input output = .ok (r, s) ∧ getAmountIn z r s = .ok x ∧
      amounts = x :: z :: as := by
  simp only [amountsInFrom, except_bind_ok_iff, except_pure_ok_iff] at h
  obtain ⟨as, has, ⟨r, s⟩, hreserves, z, hz, x, hx, rfl⟩ := h
  cases as with
  | nil => cases hz
  | cons z' as =>
    obtain rfl := Except.ok.inj hz
    exact ⟨r, s, x, _, as, has, hreserves, hx, rfl⟩

/-- The amounts of the library for an output are payable, by induction on the path. -/
theorem payable_of_amountsIn (hne : path ≠ []) (h : amountsInFrom c y path = .ok amounts) :
    c.Payable path amounts ∧ amounts.getLast? = some y := by
  induction path generalizing amounts with
  | nil => exact absurd rfl hne
  | cons input rest ih =>
    cases rest with
    | nil =>
      obtain rfl := Except.ok.inj h
      exact ⟨.last input y, rfl⟩
    | cons output rest =>
      obtain ⟨r, s, x, z, as, has, hreserves, hx, rfl⟩ := amountsInFrom_cons h
      obtain ⟨hrest, hlast⟩ := ih (List.cons_ne_nil _ _) has
      obtain ⟨hz, hr, hlt, rfl⟩ := getAmountIn_ok hx
      have henough := ConstantProduct.le_amountOut_amountIn (n := 997) (by decide)
        (by omega : 0 < r * 1000) hlt
      exact ⟨.hop hreserves hr hz henough hrest, by simpa using hlast⟩

theorem Payable.le_amountsOut (h : c.Payable path (x :: amounts)) (hle : x ≤ x')
    (hout : amountsOutFrom c x' path = .ok outs) : List.Forall₂ (· ≤ ·) (x :: amounts) outs := by
  generalize has : x :: amounts = as at h
  induction h generalizing x x' amounts outs with
  | last token z =>
    obtain ⟨rfl, rfl⟩ := List.cons.inj has
    obtain rfl := Except.ok.inj hout
    exact .cons hle .nil
  | @hop input output rest z y r s as hreserves hr hpos hy hrest ih =>
    obtain ⟨rfl, rfl⟩ := List.cons.inj has
    obtain ⟨r', s', y', os, hreserves', hy', hos, rfl⟩ := amountsOutFrom_cons hout
    obtain ⟨rfl, rfl⟩ := Prod.mk.inj (Except.ok.inj (hreserves.symm.trans hreserves'))
    obtain ⟨-, -, -, rfl⟩ := getAmountOut_ok hy'
    have hmore := ConstantProduct.amountOut_mono (n := 997) (s := s) (by omega : 0 < r * 1000) hle
    exact .cons hle (ih (hy.trans hmore) hos rfl)

/-- For the first of payable amounts or more, only an overflow stops the quote, by induction on
the path: each pair is given no less than it asked for. -/
theorem Payable.amountsOut_overflowOr (h : c.Payable path (x :: amounts)) (hle : x ≤ x') :
    ∃ outs, OverflowOr (amountsOutFrom c x' path) outs := by
  generalize has : x :: amounts = as at h
  induction h generalizing x x' amounts with
  | last token z => exact ⟨[x'], Or.inr rfl⟩
  | @hop input output rest z y r s as hreserves hr hpos hy hrest ih =>
    obtain ⟨rfl, rfl⟩ := List.cons.inj has
    have hquoted : 0 < ConstantProduct.amountOut 997 1000 x r s := hpos.trans_le hy
    have hx : 0 < x := by
      by_contra hzero
      obtain rfl : x = 0 := by omega
      simp [ConstantProduct.amountOut] at hquoted
    have hs : 0 < s := by
      by_contra hzero
      obtain rfl : s = 0 := by omega
      simp [ConstantProduct.amountOut] at hquoted
    have hmore := ConstantProduct.amountOut_mono (n := 997) (s := s) (by omega : 0 < r * 1000) hle
    obtain ⟨os, hos⟩ := ih (hy.trans hmore) rfl
    refine ⟨x' :: os, ?_⟩
    simp only [amountsOutFrom, hreserves, except_ok_bind]
    exact (getAmountOut_overflowOr (hx.trans_le hle) hr hs).bind (hos.bind (Or.inr rfl))

/-! ### There and back -/

theorem amountsOutFrom_concat {last : Address} (hlast : path.getLast? = some last)
    (h : amountsOutFrom c x (path ++ [input]) = .ok outs) :
    ∃ as v r s w, amountsOutFrom c x path = .ok as ∧ as.getLast? = some v ∧
      Library.getReserves c last input = .ok (r, s) ∧ getAmountOut v r s = .ok w ∧
      outs = as ++ [w] := by
  induction path generalizing x outs with
  | nil => cases hlast
  | cons token rest ih =>
    cases rest with
    | nil =>
      obtain rfl : token = last := by simpa using hlast
      obtain ⟨r, s, y, as, hreserves, hy, has, rfl⟩ := amountsOutFrom_cons h
      obtain rfl := Except.ok.inj has
      exact ⟨[x], x, r, s, y, rfl, rfl, hreserves, hy, rfl⟩
    | cons next rest =>
      obtain ⟨r, s, y, as, hreserves, hy, has, rfl⟩ := amountsOutFrom_cons h
      obtain ⟨as', v, r', s', w, has', hv, hreserves', hw, rfl⟩ := ih (by simpa using hlast) has
      refine ⟨x :: as', v, r', s', w, ?_, ?_, hreserves', hw, rfl⟩
      · simp only [amountsOutFrom, hreserves, hy, has', except_ok_bind]
        rfl
      · rw [List.getLast?_cons, hv]
        rfl

/-- By induction on the path: the way back ends with the first pair, and has no more
to trade there than the way forth got from it. -/
theorem amountsOutFrom_reverse_le
    (hsymmetric : ∀ tokenA tokenB, c.factory.getPair tokenA tokenB = c.factory.getPair tokenB tokenA)
    (h : amountsOutFrom c x path = .ok amounts) (hy : amounts.getLast? = some y)
    (hback : amountsOutFrom c y path.reverse = .ok outs) (hz : outs.getLast? = some z) : z ≤ x := by
  induction path generalizing x amounts outs z with
  | nil =>
    obtain rfl := Except.ok.inj h
    obtain rfl := Except.ok.inj hback
    obtain rfl : x = y := by simpa using hy
    obtain rfl : x = z := by simpa using hz
    exact le_rfl
  | cons input rest ih =>
    cases rest with
    | nil =>
      obtain rfl := Except.ok.inj h
      obtain rfl := Except.ok.inj hback
      obtain rfl : x = y := by simpa using hy
      obtain rfl : x = z := by simpa using hz
      exact le_rfl
    | cons output rest =>
      obtain ⟨r, s, u, as, hreserves, hu, has, rfl⟩ := amountsOutFrom_cons h
      rw [List.reverse_cons] at hback
      have hlast : (output :: rest).reverse.getLast? = some output := by simp
      obtain ⟨os, v, s', r', w, hos, hv, hreserves', hw, rfl⟩ := amountsOutFrom_concat hlast hback
      rw [getReserves_swap (hsymmetric _ _), hreserves] at hreserves'
      obtain ⟨rfl, rfl⟩ := Prod.mk.inj (Except.ok.inj hreserves')
      obtain rfl : w = z := by simpa using hz
      obtain ⟨as, rfl⟩ := amountsOutFrom_head has
      have hless : v ≤ u := ih has (by simpa using hy) hos hv
      obtain ⟨-, hs, -, rfl⟩ := getAmountOut_ok hw
      obtain ⟨-, -, -, rfl⟩ := getAmountOut_ok hu
      exact (ConstantProduct.amountOut_mono (by omega) hless).trans
        (ConstantProduct.amountOut_back_le (by decide))

end Chain

/-! ### The answers of the library -/

/-- The library answers no less for a greater input, at any token of the path. -/
theorem getAmountsOut_mono (hle : x ≤ x') (h : getAmountsOut c x path = .ok amounts)
    (h' : getAmountsOut c x' path = .ok outs) : List.Forall₂ (· ≤ ·) amounts outs := by
  simp only [getAmountsOut, except_bind_ok_iff] at h h'
  obtain ⟨-, -, h⟩ := h
  obtain ⟨-, -, h'⟩ := h'
  exact Chain.amountsOutFrom_mono hle h h'

theorem getAmountsOut_mono_sample :
    getAmountsOut sampleExchange 1001 [⟨2⟩, ⟨3⟩, ⟨4⟩] = .ok [1001, 907, 829] ∧
      List.Forall₂ (· ≤ ·) [1000, 906, 828] [1001, 907, 829] := by
  have hless : getAmountsOut sampleExchange 1000 [⟨2⟩, ⟨3⟩, ⟨4⟩] = .ok [1000, 906, 828] := by
    decide +kernel
  have hmore : getAmountsOut sampleExchange 1001 [⟨2⟩, ⟨3⟩, ⟨4⟩] = .ok [1001, 907, 829] := by
    decide +kernel
  exact ⟨hmore, getAmountsOut_mono (by decide) hless hmore⟩

/-- For what the library asks for an output, or more, only an overflow stops the quote, and it
is that output or more, and at each token of the path no less than what was asked. -/
theorem getAmountsIn_suffices (h : getAmountsIn c y path = .ok amounts)
    (hfirst : amounts.head? = some x) (hle : x ≤ x') :
    getAmountsOut c x' path = .error (.panic 0x11) ∨
      ∃ outs, getAmountsOut c x' path = .ok outs ∧ List.Forall₂ (· ≤ ·) amounts outs ∧
        ∃ z, outs.getLast? = some z ∧ y ≤ z := by
  simp only [getAmountsIn, except_bind_ok_iff, require_ok_iff] at h
  obtain ⟨-, hlength, h⟩ := h
  obtain ⟨hpayable, hlast⟩ := Chain.payable_of_amountsIn (by rintro rfl; simp at hlength) h
  obtain ⟨amounts, rfl⟩ := List.head?_eq_some_iff.mp hfirst
  have hquote : getAmountsOut c x' path = amountsOutFrom c x' path := by
    simp only [getAmountsOut, require, if_pos hlength, except_ok_bind]
  rw [hquote]
  obtain ⟨outs, hoverflow | hout⟩ := hpayable.amountsOut_overflowOr hle
  · exact Or.inl hoverflow
  · have hless := hpayable.le_amountsOut hle hout
    exact Or.inr ⟨outs, hout, hless, forall₂_getLast hless hlast⟩

/-- For 828 of the third token the library asks for 1000 of the first, and 1001 give 829. -/
theorem getAmountsIn_suffices_sample :
    getAmountsIn sampleExchange 828 [⟨2⟩, ⟨3⟩, ⟨4⟩] = .ok [1000, 906, 828] ∧
      getAmountsOut sampleExchange 1001 [⟨2⟩, ⟨3⟩, ⟨4⟩] = .ok [1001, 907, 829] ∧
      List.Forall₂ (· ≤ ·) [1000, 906, 828] [1001, 907, 829] := by
  have hasked : getAmountsIn sampleExchange 828 [⟨2⟩, ⟨3⟩, ⟨4⟩] = .ok [1000, 906, 828] := by
    decide +kernel
  have hquote : getAmountsOut sampleExchange 1001 [⟨2⟩, ⟨3⟩, ⟨4⟩] = .ok [1001, 907, 829] := by
    decide +kernel
  obtain hoverflow | ⟨outs, hout, hless, -⟩ :=
    getAmountsIn_suffices hasked rfl (by decide : 1000 ≤ 1001)
  · rw [hquote] at hoverflow
    cases hoverflow
  · obtain rfl := Except.ok.inj (hquote.symm.trans hout)
    exact ⟨hasked, hquote, hless⟩

theorem getPair_register_symmetric {f : Factory} {token0 token1 pair : Address}
    (hne : token0 ≠ token1) (h : ∀ a b, f.getPair a b = f.getPair b a) (a b : Address) :
    (f.register token0 token1 pair).getPair a b = (f.register token0 token1 pair).getPair b a := by
  simp only [Chain.getPair_register f hne, h a b]
  congr 1
  exact propext ⟨fun hnew => hnew.symm.imp And.symm And.symm,
    fun hnew => hnew.symm.imp And.symm And.symm⟩

/-- No path gives back more than was put in. -/
theorem getAmountsOut_reverse_le
    (hsymmetric : ∀ tokenA tokenB, c.factory.getPair tokenA tokenB = c.factory.getPair tokenB tokenA)
    (h : getAmountsOut c x path = .ok amounts) (hy : amounts.getLast? = some y)
    (hback : getAmountsOut c y path.reverse = .ok outs) (hz : outs.getLast? = some z) : z ≤ x := by
  simp only [getAmountsOut, except_bind_ok_iff] at h hback
  obtain ⟨-, -, h⟩ := h
  obtain ⟨-, -, hback⟩ := hback
  exact Chain.amountsOutFrom_reverse_le hsymmetric h hy hback hz

/-- Of 1000 there are 706 left. -/
theorem getAmountsOut_reverse_le_sample :
    getAmountsOut sampleExchange 828 [⟨4⟩, ⟨3⟩, ⟨2⟩] = .ok [828, 762, 706] ∧ 706 ≤ 1000 := by
  have hsymmetric : ∀ a b,
      sampleExchange.factory.getPair a b = sampleExchange.factory.getPair b a := by
    apply getPair_register_symmetric (by decide)
    apply getPair_register_symmetric (by decide)
    apply getPair_register_symmetric (by decide)
    exact fun _ _ => rfl
  have hback : getAmountsOut sampleExchange 828 [⟨4⟩, ⟨3⟩, ⟨2⟩] = .ok [828, 762, 706] := by
    decide +kernel
  have hforth : getAmountsOut sampleExchange 1000 [⟨2⟩, ⟨3⟩, ⟨4⟩] = .ok [1000, 906, 828] := by
    decide +kernel
  exact ⟨hback, getAmountsOut_reverse_le hsymmetric hforth rfl hback rfl⟩

end EnergyChain.Dex
