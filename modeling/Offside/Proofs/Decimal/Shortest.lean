import Mathlib.Data.Nat.Cast.Order.Field
import Offside.Proofs.Decimal.Rounding

/-!
# The shortest decimal rounds to its double

The grids that `Dyadic.shortest` tries get finer until a neighbour of the double on the grid is in
the interval of the double. On the last one, where the double has seventeen digits, a step is
smaller than the interval, so that one of the neighbours is.

Results:
* `Dyadic.accepts_iff`: the points of a grid that are accepted are those in the interval.
* `Dyadic.pow_magnitude_le`: the power of ten at which the digits of a double start.
* `Dyadic.covers_shortest`: the shortest decimal is in the interval.
-/

namespace Offside.Decimal

/-- The value of a decimal. -/
def Scaled.value (d : Scaled) : ℚ := d.digits * 10 ^ d.exponent

/-! ## Digits -/

theorem digitCount_pos (n : Nat) : 0 < digitCount n := Nat.length_toDigits_pos

theorem lt_pow_digitCount (n : Nat) : n < 10 ^ digitCount n :=
  (Nat.length_toDigits_le_iff (by decide) (digitCount_pos n)).1 (Nat.le_refl _)

theorem pow_digitCount_le {n : Nat} (h : 0 < n) : 10 ^ (digitCount n - 1) ≤ n := by
  by_contra hlt
  by_cases hone : digitCount n = 1
  · rw [hone] at hlt
    simp at hlt
    omega
  · have hpos := digitCount_pos n
    have hle : digitCount n ≤ digitCount n - 1 :=
      (Nat.length_toDigits_le_iff (by decide) (by omega)).2 (Nat.lt_of_not_le hlt)
    omega

namespace Dyadic

variable {x : Dyadic}

/-- The value of a double. -/
def value (x : Dyadic) : ℚ := x.mantissa * 2 ^ x.exponent

/-! ## Grids -/

theorem den_onGrid_pos (x : Dyadic) (s : Int) : 0 < (x.onGrid s).den :=
  Nat.mul_pos (twoTo_pos _) (tenTo_pos _)

/-- Quarters of the unit of a double and steps of the grid in a common measure. -/
theorem exists_measure (x : Dyadic) (s : Int) :
    ∃ u : ℚ, 0 < u ∧ (2 : ℚ) ^ (x.exponent - 2) = (x.onGrid s).num * u ∧
      (10 : ℚ) ^ s = (x.onGrid s).den * u := by
  have htwo : (0 : ℚ) < twoTo (-(x.exponent - 2)) := Nat.cast_pos.2 (twoTo_pos _)
  have hten : (0 : ℚ) < tenTo (-s) := Nat.cast_pos.2 (tenTo_pos _)
  refine ⟨1 / (twoTo (-(x.exponent - 2)) * tenTo (-s)), one_div_pos.2 (mul_pos htwo hten), ?_, ?_⟩
  · rw [← twoTo_div, onGrid]
    push_cast
    field_simp
  · rw [← tenTo_div, onGrid]
    push_cast
    field_simp

theorem accepts_iff (hm : 0 < x.mantissa) (s : Int) (n : Nat) :
    x.accepts (x.onGrid s) n = true ↔ x.Covers (n * 10 ^ s) := by
  obtain ⟨u, hu, htwo, hten⟩ := exists_measure x s
  have hlow : x.lowEnd =
      ((4 * x.mantissa - if x.narrowBelow then 1 else 2 : Nat) * (x.onGrid s).num : Nat) * u := by
    have hle : (if x.narrowBelow then 1 else 2) ≤ 4 * x.mantissa := by split <;> omega
    rw [lowEnd, htwo, Nat.cast_mul, Nat.cast_sub hle]
    push_cast
    ring
  have hhigh : x.highEnd = ((4 * x.mantissa + 2) * (x.onGrid s).num : Nat) * u := by
    rw [highEnd, htwo]
    push_cast
    ring
  have hpoint : (n : ℚ) * 10 ^ s = (n * (x.onGrid s).den : Nat) * u := by
    rw [hten]
    push_cast
    ring
  unfold Covers
  rw [hlow, hhigh, hpoint, mul_le_mul_iff_of_pos_right hu, mul_le_mul_iff_of_pos_right hu,
    mul_left_inj' hu.ne', mul_left_inj' hu.ne', Nat.cast_le, Nat.cast_le, Nat.cast_inj,
    Nat.cast_inj]
  unfold accepts
  dsimp only
  generalize (4 * x.mantissa - if x.narrowBelow then 1 else 2) * (x.onGrid s).num = low
  generalize (4 * x.mantissa + 2) * (x.onGrid s).num = high
  generalize n * (x.onGrid s).den = point
  split
  · next heven => simp [heven]
  · next hodd =>
    simp only [Bool.and_eq_true, decide_eq_true_eq]
    omega

/-- A decimal that is found lies on its grid and in the interval. -/
theorem gridPoint?_spec {s : Int} {d : Scaled} (h : x.gridPoint? s = some d) :
    d.exponent = s ∧ x.accepts (x.onGrid s) d.digits = true := by
  unfold gridPoint? at h
  dsimp only at h
  split at h
  · next hup =>
    cases h
    exact ⟨rfl, (Bool.and_eq_true_iff.1 hup).1⟩
  · split at h
    · next hdown => cases h; exact ⟨rfl, hdown⟩
    · cases h

/-- A decimal is found if a neighbour of the double on the grid lies in the interval. -/
theorem gridPoint?_isSome {s : Int} {n : Nat}
    (hn : 4 * x.mantissa * (x.onGrid s).num / (x.onGrid s).den = n)
    (h : x.accepts (x.onGrid s) n = true ∨ x.accepts (x.onGrid s) (n + 1) = true) :
    (x.gridPoint? s).isSome = true := by
  unfold gridPoint?
  dsimp only
  rw [hn]
  cases hdown : x.accepts (x.onGrid s) n <;> cases hup : x.accepts (x.onGrid s) (n + 1)
  · simp [hdown, hup] at h
  · simp
  · simp
  · split <;> simp

theorem value_eq (x : Dyadic) : x.value = 4 * x.mantissa * 2 ^ (x.exponent - 2) := by
  rw [value, zpow_sub₀ two_ne_zero]
  norm_num
  ring

theorem highEnd_eq (x : Dyadic) : x.highEnd = x.value + 2 * 2 ^ (x.exponent - 2) := by
  rw [highEnd, value_eq]
  ring

theorem lowEnd_eq (x : Dyadic) :
    x.lowEnd = x.value - (if x.narrowBelow then 1 else 2) * 2 ^ (x.exponent - 2) := by
  rw [lowEnd, value_eq]
  ring

theorem neighbours (x : Dyadic) (s : Int) {n : Nat}
    (hn : 4 * x.mantissa * (x.onGrid s).num / (x.onGrid s).den = n) :
    n * 10 ^ s ≤ x.value ∧ x.value < (n + 1) * 10 ^ s := by
  obtain ⟨u, hu, htwo, hten⟩ := exists_measure x s
  have hle := Nat.div_mul_le_self (4 * x.mantissa * (x.onGrid s).num) (x.onGrid s).den
  have hlt := Nat.lt_div_mul_add (a := 4 * x.mantissa * (x.onGrid s).num) (den_onGrid_pos x s)
  rw [hn] at hle hlt
  have hle' : (n : ℚ) * (x.onGrid s).den ≤ 4 * x.mantissa * (x.onGrid s).num := by
    exact_mod_cast hle
  have hlt' : (4 : ℚ) * x.mantissa * (x.onGrid s).num <
      n * (x.onGrid s).den + (x.onGrid s).den := by
    exact_mod_cast hlt
  rw [value_eq, htwo, hten]
  constructor <;> nlinarith

theorem covers_of_lt {v : ℚ} (hlow : x.lowEnd < v) (hhigh : v < x.highEnd) : x.Covers v := by
  refine ⟨hlow.le, hhigh.le, fun hends => ?_⟩
  rcases hends with heq | heq
  · exact absurd heq hlow.ne'
  · exact absurd heq hhigh.ne

/-- On a grid on which the double has seventeen digits a decimal is found. -/
theorem isSome_of_fine (hx : x.Fits) {s : Int} (hs : 10 ^ s * 10 ^ 16 ≤ x.value) :
    (x.gridPoint? s).isSome = true := by
  obtain ⟨n, hn⟩ : ∃ n, 4 * x.mantissa * (x.onGrid s).num / (x.onGrid s).den = n := ⟨_, rfl⟩
  obtain ⟨hbelow, habove⟩ := neighbours x s hn
  refine gridPoint?_isSome hn ?_
  rw [accepts_iff hx.pos, accepts_iff hx.pos]
  have hm : (x.mantissa : ℚ) < 2 ^ 53 := by exact_mod_cast hx.lt
  have hunit := two_zpow_pos (x.exponent - 2)
  have hstep : (0 : ℚ) < 10 ^ s := zpow_pos (by norm_num) s
  have hlow := lowEnd_eq x
  have hhigh := highEnd_eq x
  rw [value_eq] at hs
  cases hnarrow : x.narrowBelow with
  | true =>
    -- The interval has a whole step above the double.
    rw [(hx.narrow.1 hnarrow).1] at hs
    rw [hnarrow, if_pos rfl] at hlow
    have hsize : (10 : ℚ) ^ s < 2 * 2 ^ (x.exponent - 2) := by
      norm_num [mantissaUnit] at hs
      linarith
    refine Or.inr (covers_of_lt ?_ ?_)
    · push_cast
      linarith
    · push_cast
      linarith
  | false =>
    -- It has more than half a step on either side.
    rw [hnarrow, if_neg Bool.false_ne_true] at hlow
    have hsize : (10 : ℚ) ^ s < 4 * 2 ^ (x.exponent - 2) := by
      have hlt := mul_lt_mul_of_pos_right hm hunit
      norm_num at hs hlt
      linarith
    by_cases hnear : 2 * (x.value - n * 10 ^ s) ≤ 10 ^ s
    · exact Or.inl (covers_of_lt (by linarith) (by linarith))
    · refine Or.inr (covers_of_lt ?_ ?_)
      · push_cast
        linarith
      · push_cast
        linarith

/-! ## The size of a double -/

/-- A power of ten below a double: the double has as many digits on each grid as it should. -/
theorem pow_magnitude_le (hm : 0 < x.mantissa) : (10 : ℚ) ^ (x.magnitude - 1) ≤ x.value := by
  have hvalue : x.value = (x.mantissa * twoTo x.exponent : Nat) / (twoTo (-x.exponent) : Nat) := by
    rw [value, ← twoTo_div, Nat.cast_mul, mul_div_assoc]
  have hnum : 0 < x.mantissa * twoTo x.exponent := Nat.mul_pos hm (twoTo_pos _)
  have hden : 0 < twoTo (-x.exponent) := twoTo_pos _
  unfold magnitude
  dsimp only
  rw [hvalue]
  generalize x.mantissa * twoTo x.exponent = num at *
  generalize twoTo (-x.exponent) = den at *
  split
  · next hle =>
    have hpos : 0 < num / den := Nat.div_pos hle hden
    have hexp : (digitCount (num / den) : Int) - 1 = (digitCount (num / den) - 1 : Nat) := by
      have := digitCount_pos (num / den)
      omega
    calc (10 : ℚ) ^ ((digitCount (num / den) : Int) - 1)
        = (10 ^ (digitCount (num / den) - 1) : Nat) := by rw [hexp, zpow_natCast]; norm_cast
      _ ≤ (num / den : Nat) := Nat.cast_le.2 (pow_digitCount_le hpos)
      _ ≤ num / den := Nat.cast_div_le
  · next hlt =>
    have hexp : 1 - (digitCount ((den - 1) / num) : Int) - 1 =
        -(digitCount ((den - 1) / num) : Nat) := by omega
    have hdigits := (Nat.div_lt_iff_lt_mul hnum).1 (lt_pow_digitCount ((den - 1) / num))
    have hle : den ≤ 10 ^ digitCount ((den - 1) / num) * num := by omega
    have hle' : (den : ℚ) ≤ 10 ^ digitCount ((den - 1) / num) * num := by exact_mod_cast hle
    rw [hexp, zpow_neg, zpow_natCast, inv_le_iff_one_le_mul₀ (by positivity),
      div_mul_eq_mul_div, one_le_div (Nat.cast_pos.2 hden), mul_comm]
    exact hle'

theorem covers_shortest (hx : x.Fits) : x.Covers x.shortest.value := by
  have hfine : (x.gridPoint? (x.magnitude - 1 - (16 : Nat))).isSome = true := by
    refine isSome_of_fine hx ?_
    rw [zpow_sub₀ (by norm_num), zpow_natCast, div_mul_cancel₀ _ (by norm_num)]
    exact pow_magnitude_le hx.pos
  have hsome : ((List.range 17).findSome? fun k =>
      x.gridPoint? (x.magnitude - 1 - (k : Nat))).isSome = true :=
    List.findSome?_isSome_iff.2 ⟨16, by decide, hfine⟩
  obtain ⟨d, hd⟩ := Option.isSome_iff_exists.1 hsome
  obtain ⟨k, -, hk⟩ := List.exists_of_findSome?_eq_some hd
  obtain ⟨hexponent, haccepts⟩ := gridPoint?_spec hk
  unfold shortest
  dsimp only
  rw [hd, Option.getD_some, Scaled.value, hexponent]
  exact (accepts_iff hx.pos _ _).1 haccepts

end Dyadic

end Offside.Decimal
