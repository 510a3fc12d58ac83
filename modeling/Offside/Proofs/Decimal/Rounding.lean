import Mathlib.Algebra.Order.Field.Power
import Mathlib.Tactic.FieldSimp
import Mathlib.Tactic.Linarith
import Mathlib.Tactic.Ring
import Offside.Decimal.Shortest

/-!
# The reals that round to a double

`Dyadic.Covers x v` says that `v` lies in the interval of `x`: from halfway to the neighbour below
to halfway to the neighbour above, its ends included exactly when the mantissa is even. A ratio in
the interval of a double has the bits of this double as its nearest bits.

Results:
* `log2Ratio_spec`: the binary logarithm of a ratio, rounded down.
* `nearestEven_eq`: the integer to which a ratio rounds, told from the interval that it is in.
* `Dyadic.Covers.nearestBits_eq`: the double to which a ratio rounds.
-/

namespace Offside.Decimal

/-! ## Powers -/

theorem pow_toNat_div {b : ℚ} (hb : b ≠ 0) (k : Int) : b ^ k.toNat / b ^ (-k).toNat = b ^ k := by
  rw [← zpow_natCast, ← zpow_natCast, ← zpow_sub₀ hb]
  congr 1
  omega

theorem twoTo_pos (k : Int) : 0 < twoTo k := Nat.pow_pos (by decide)

theorem tenTo_pos (k : Int) : 0 < tenTo k := Nat.pow_pos (by decide)

theorem twoTo_div (k : Int) : (twoTo k : ℚ) / twoTo (-k) = 2 ^ k := by
  have h : ∀ j, (twoTo j : ℚ) = 2 ^ j.toNat := fun j => Nat.cast_pow 2 j.toNat
  rw [h, h, pow_toNat_div two_ne_zero]

theorem tenTo_div (k : Int) : (tenTo k : ℚ) / tenTo (-k) = 10 ^ k := by
  have h : ∀ j, (tenTo j : ℚ) = 10 ^ j.toNat := fun j => Nat.cast_pow 10 j.toNat
  rw [h, h, pow_toNat_div (by norm_num)]

theorem two_zpow_pos (k : Int) : (0 : ℚ) < 2 ^ k := zpow_pos two_pos k

/-! ## The binary logarithm of a ratio -/

section

variable {num den : Nat}

theorem two_zpow_le_ratio (hd : 0 < den) (k : Int) :
    (2 : ℚ) ^ k ≤ num / den ↔ den * twoTo k ≤ num * twoTo (-k) := by
  have hden : (0 : ℚ) < den := Nat.cast_pos.2 hd
  have htwo : (0 : ℚ) < twoTo (-k) := Nat.cast_pos.2 (twoTo_pos _)
  rw [← twoTo_div, div_le_div_iff₀ htwo hden, mul_comm (twoTo k : ℚ)]
  norm_cast

theorem log2Ratio_spec (hn : 0 < num) (hd : 0 < den) :
    (2 : ℚ) ^ log2Ratio num den ≤ num / den ∧ (num : ℚ) / den < 2 ^ (log2Ratio num den + 1) := by
  have hden : (0 : ℚ) < den := Nat.cast_pos.2 hd
  have hnumLow : (2 : ℚ) ^ num.log2 ≤ num := by exact_mod_cast Nat.log2_self_le hn.ne'
  have hnumHigh : (num : ℚ) < 2 ^ (num.log2 + 1) := by exact_mod_cast Nat.lt_log2_self
  have hdenLow : (2 : ℚ) ^ den.log2 ≤ den := by exact_mod_cast Nat.log2_self_le hd.ne'
  have hdenHigh : (den : ℚ) < 2 ^ (den.log2 + 1) := by exact_mod_cast Nat.lt_log2_self
  have hsub : ∀ a b : Nat, (2 : ℚ) ^ ((a : Int) - b) = 2 ^ a / 2 ^ b := by
    intro a b
    rw [zpow_sub₀ two_ne_zero, zpow_natCast, zpow_natCast]
  have hlow : (2 : ℚ) ^ ((num.log2 : Int) - den.log2 - 1) ≤ num / den := by
    have hexp : (num.log2 : Int) - den.log2 - 1 = num.log2 - (den.log2 + 1 : Nat) := by omega
    rw [hexp, hsub]
    exact div_le_div₀ (Nat.cast_nonneg _) hnumLow hden hdenHigh.le
  have hhigh : (num : ℚ) / den < 2 ^ ((num.log2 : Int) - den.log2 + 1) := by
    have hexp : (num.log2 : Int) - den.log2 + 1 = (num.log2 + 1 : Nat) - den.log2 := by omega
    rw [hexp, hsub]
    exact div_lt_div₀ hnumHigh hdenLow (by positivity) (by positivity)
  unfold log2Ratio
  dsimp only
  split
  · next h => exact ⟨(two_zpow_le_ratio hd _).2 h, hhigh⟩
  · next h =>
    rw [← two_zpow_le_ratio hd, not_le] at h
    exact ⟨hlow, by rw [sub_add_cancel]; exact h⟩

/-! ## The nearest integer -/

/-- Halfway between two integers a ratio rounds to the even one. -/
theorem nearestEven_of_half {k : Nat} (h : 2 * num = (2 * k + 1) * den) :
    nearestEven num den % 2 = 0 := by
  refine nearestEven_even ?_
  obtain ⟨r, hr⟩ : ∃ r, num = den * k + r := Nat.exists_eq_add_of_le (by nlinarith)
  have hhalf : den = 2 * r := by rw [hr] at h; nlinarith
  rcases Nat.eq_zero_or_pos r with rfl | hpos
  · simp [hhalf, hr]
  · rw [hr, Nat.mul_add_mod, Nat.mod_eq_of_lt (by omega), hhalf]

/-- A ratio and a power of two as whole numbers of a common unit. -/
theorem exists_common_unit (num : Nat) (hd : 0 < den) (q : Int) :
    ∃ u : ℚ, 0 < u ∧ (num : ℚ) / den = (num * twoTo (-q) : Nat) * u ∧
      (2 : ℚ) ^ q = (den * twoTo q : Nat) * u := by
  have hden : (0 : ℚ) < den := Nat.cast_pos.2 hd
  have htwo : (0 : ℚ) < twoTo (-q) := Nat.cast_pos.2 (twoTo_pos _)
  refine ⟨1 / (twoTo (-q) * den), one_div_pos.2 (mul_pos htwo hden), ?_, ?_⟩
  · push_cast
    field_simp
  · rw [← twoTo_div]
    push_cast
    field_simp

/-- The integer to which a ratio rounds is the one within half a unit, the even one of two. -/
theorem nearestEven_eq {m : Nat} (hd : 0 < den) (hlow : 2 * m * den ≤ 2 * num + den)
    (hhigh : 2 * num ≤ (2 * m + 1) * den)
    (htie : 2 * m * den = 2 * num + den ∨ 2 * num = (2 * m + 1) * den → m % 2 = 0) :
    nearestEven num den = m := by
  obtain ⟨hnear, hnear'⟩ := nearestEven_near num hd
  have hle : nearestEven num den < m + 2 := by nlinarith
  have hge : m < nearestEven num den + 2 := by nlinarith
  rcases Nat.lt_trichotomy (nearestEven num den) m with hlt | heq | hgt
  · have hm : m = nearestEven num den + 1 := by omega
    rw [hm] at hlow htie
    have hodd := htie (Or.inl (by nlinarith))
    have hhalf : 2 * num = (2 * nearestEven num den + 1) * den := by nlinarith
    have heven := nearestEven_of_half hhalf
    omega
  · exact heq
  · have hm : nearestEven num den = m + 1 := by omega
    rw [hm] at hnear'
    have hhalf : 2 * num = (2 * m + 1) * den := by nlinarith
    have := htie (Or.inr hhalf)
    have heven := nearestEven_of_half hhalf
    omega

/-- The same, for a ratio measured in units of `2^q`. -/
theorem nearestEven_scaled {m : Nat} (hd : 0 < den) (q : Int)
    (hlow : (2 * m - 1 : ℚ) * 2 ^ (q - 1) ≤ num / den)
    (hhigh : (num : ℚ) / den ≤ (2 * m + 1) * 2 ^ (q - 1))
    (htie : (num : ℚ) / den = (2 * m - 1) * 2 ^ (q - 1) ∨
      (num : ℚ) / den = (2 * m + 1) * 2 ^ (q - 1) → m % 2 = 0) :
    nearestEven (num * twoTo (-q)) (den * twoTo q) = m := by
  obtain ⟨u, hu, hratio, hunit⟩ : ∃ u : ℚ, 0 < u ∧ (num : ℚ) / den = 2 * (num * twoTo (-q)) * u ∧
      (2 : ℚ) ^ (q - 1) = den * twoTo q * u := by
    obtain ⟨u, hu, hratio, hunit⟩ := exists_common_unit num hd q
    refine ⟨u / 2, div_pos hu two_pos, ?_, ?_⟩
    · rw [hratio]
      push_cast
      ring
    · rw [zpow_sub_one₀ two_ne_zero, hunit]
      push_cast
      ring
  have hscale : ∀ c : ℚ, c * 2 ^ (q - 1) = c * (den * twoTo q) * u := by
    intro c
    rw [hunit]; ring
  rw [hratio, hscale] at hlow hhigh
  rw [hratio, hscale, hscale, mul_left_inj' hu.ne', mul_left_inj' hu.ne'] at htie
  have hlow' := le_of_mul_le_mul_right hlow hu
  have hhigh' := le_of_mul_le_mul_right hhigh hu
  refine nearestEven_eq (Nat.mul_pos hd (twoTo_pos q)) ?_ ?_ ?_
  · rw [← Nat.cast_le (α := ℚ)]
    push_cast
    linarith
  · rw [← Nat.cast_le (α := ℚ)]
    push_cast
    exact hhigh'
  · intro h
    refine htie (h.imp (fun h => ?_) fun h => ?_)
    · have hcast := congrArg (Nat.cast (R := ℚ)) h
      push_cast at hcast
      linarith
    · have hcast := congrArg (Nat.cast (R := ℚ)) h
      push_cast at hcast
      exact hcast

end

/-! ## Doubles -/

namespace Dyadic

/-- The double is written with the least exponent that fits, as all doubles are. -/
structure Fits (x : Dyadic) : Prop where
  pos : 0 < x.mantissa
  lt : x.mantissa < 2 * mantissaUnit
  least : -1074 ≤ x.exponent
  full : x.mantissa < mantissaUnit → x.exponent = -1074
  narrow : x.narrowBelow = true ↔ x.mantissa = mantissaUnit ∧ -1074 < x.exponent

/-- The bits of a double. -/
def bits (x : Dyadic) : Nat := (x.exponent + 1074).toNat * mantissaUnit + x.mantissa

theorem ofBits_fits {n : Nat} (h : 0 < n) : (ofBits n).Fits := by
  unfold ofBits
  dsimp only
  split
  · next hfield =>
    simp only [mantissaUnit] at hfield ⊢
    refine ⟨?_, ?_, ?_, ?_, iff_of_false nofun ?_⟩ <;> dsimp only [mantissaUnit] <;> omega
  · next hfield =>
    simp only [mantissaUnit] at hfield ⊢
    refine ⟨?_, ?_, ?_, ?_, decide_eq_true_iff.trans ?_⟩ <;> dsimp only [mantissaUnit] <;> omega

theorem bits_ofBits (n : Nat) : (ofBits n).bits = n := by
  unfold ofBits bits
  dsimp only
  split <;> simp only [mantissaUnit] at * <;> omega

/-- Halfway to the neighbour below. -/
def lowEnd (x : Dyadic) : ℚ :=
  (4 * x.mantissa - if x.narrowBelow then 1 else 2) * 2 ^ (x.exponent - 2)

/-- Halfway to the neighbour above. -/
def highEnd (x : Dyadic) : ℚ := (4 * x.mantissa + 2) * 2 ^ (x.exponent - 2)

/-- The reals that round to a double. -/
def Covers (x : Dyadic) (v : ℚ) : Prop :=
  x.lowEnd ≤ v ∧ v ≤ x.highEnd ∧ (v = x.lowEnd ∨ v = x.highEnd → x.mantissa % 2 = 0)

section

variable {x : Dyadic}

theorem two_zpow_add (e : Int) (n : Nat) : (2 : ℚ) ^ (e + n) = 2 ^ (n + 2) * 2 ^ (e - 2) := by
  rw [← zpow_natCast, ← zpow_add₀ two_ne_zero]
  congr 1
  push_cast
  ring

/-- The interval of a double lies below the doubles of a greater exponent. -/
theorem highEnd_lt (hx : x.Fits) : x.highEnd < 2 ^ (x.exponent + (53 : Nat)) := by
  have hm : (x.mantissa : ℚ) + 1 ≤ 2 ^ 53 := by exact_mod_cast hx.lt
  rw [highEnd, two_zpow_add]
  refine mul_lt_mul_of_pos_right ?_ (two_zpow_pos _)
  norm_num at hm ⊢
  linarith

/-- It lies above the doubles of a smaller exponent, -/
theorem le_lowEnd (hx : x.Fits) (hfull : -1074 < x.exponent) (hwide : x.narrowBelow = false) :
    2 ^ (x.exponent + (52 : Nat)) ≤ x.lowEnd := by
  have hm : mantissaUnit < x.mantissa := by
    have hle : mantissaUnit ≤ x.mantissa := by
      by_contra hlt
      have := hx.full (Nat.lt_of_not_le hlt)
      omega
    refine lt_of_le_of_ne hle fun heq => ?_
    rw [hx.narrow.2 ⟨heq.symm, hfull⟩] at hwide
    cases hwide
  have hm' : (2 : ℚ) ^ 52 + 1 ≤ x.mantissa := by exact_mod_cast hm
  rw [lowEnd, two_zpow_add, hwide, if_neg Bool.false_ne_true]
  refine mul_le_mul_of_nonneg_right ?_ (two_zpow_pos _).le
  rw [pow_add]
  linarith

/-- except the least double of its exponent: half of the interval below it has a smaller one. -/
theorem lowEnd_narrow (hx : x.Fits) (hnarrow : x.narrowBelow = true) :
    x.lowEnd = (2 * (2 * mantissaUnit : Nat) - 1) * 2 ^ (x.exponent - 2) := by
  rw [lowEnd, hnarrow, (hx.narrow.1 hnarrow).1, if_pos rfl]
  push_cast
  ring

/-- The unit in which a ratio is rounded is that of the double, but for half of it where the least
double of an exponent is rounded to from below. -/
theorem Covers.unit {num den : Nat} {k : Int} (h : x.Covers (num / den)) (hx : x.Fits)
    (hlog : (2 : ℚ) ^ k ≤ num / den) (hlog' : (num : ℚ) / den < 2 ^ (k + 1)) :
    max (-1074) (k - 52) = x.exponent ∨
      x.narrowBelow = true ∧ max (-1074) (k - 52) = x.exponent - 1 ∧
        k + 1 = x.exponent + (52 : Nat) := by
  obtain ⟨hlow, hhigh, -⟩ := h
  have hleast := hx.least
  have hlt : ∀ {i j : Int}, (2 : ℚ) ^ i < 2 ^ j → i < j := fun hij =>
    (zpow_lt_zpow_iff_right₀ one_lt_two).1 hij
  have hk := hlt (lt_of_le_of_lt (hlog.trans hhigh) (highEnd_lt hx))
  by_cases hsmall : -1074 < x.exponent ∧ k - 52 < x.exponent
  · obtain ⟨hfull, hke⟩ := hsmall
    cases hnarrow : x.narrowBelow with
    | false =>
      have := hlt (lt_of_le_of_lt ((le_lowEnd hx hfull hnarrow).trans hlow) hlog')
      omega
    | true =>
      have hhalf : (2 : ℚ) ^ (x.exponent + (51 : Nat)) ≤ x.lowEnd := by
        rw [lowEnd_narrow hx hnarrow, two_zpow_add]
        refine mul_le_mul_of_nonneg_right ?_ (two_zpow_pos _).le
        norm_num [mantissaUnit]
      have := hlt (lt_of_le_of_lt (hhalf.trans hlow) hlog')
      exact Or.inr ⟨rfl, by omega, by omega⟩
  · exact Or.inl (by omega)

theorem Covers.pos {v : ℚ} (h : x.Covers v) (hx : x.Fits) : 0 < v := by
  have hm : (1 : ℚ) ≤ x.mantissa := Nat.one_le_cast.2 hx.pos
  refine lt_of_lt_of_le (mul_pos ?_ (two_zpow_pos _)) h.1
  split <;> linarith

/-- In units of the double a ratio in its interval rounds to its mantissa. -/
theorem Covers.nearestEven_mantissa {num den : Nat} (h : x.Covers (num / den)) (hd : 0 < den) :
    nearestEven (num * twoTo (-x.exponent)) (den * twoTo x.exponent) = x.mantissa := by
  obtain ⟨hlow, hhigh, htie⟩ := h
  have hhalf : (2 : ℚ) ^ (x.exponent - 1) = 2 * 2 ^ (x.exponent - 2) := by
    rw [← zpow_one_add₀ two_ne_zero]
    congr 1
    ring
  have hlow' : (2 * x.mantissa - 1 : ℚ) * 2 ^ (x.exponent - 1) ≤ x.lowEnd := by
    rw [hhalf, ← mul_assoc, lowEnd]
    refine mul_le_mul_of_nonneg_right ?_ (two_zpow_pos _).le
    split <;> linarith
  have hhigh' : (2 * x.mantissa + 1 : ℚ) * 2 ^ (x.exponent - 1) = x.highEnd := by
    rw [hhalf, highEnd]
    ring
  refine nearestEven_scaled hd x.exponent (hlow'.trans hlow) (by rw [hhigh']; exact hhigh) ?_
  intro hends
  refine htie (hends.imp (fun heq => ?_) fun heq => heq.trans hhigh')
  exact le_antisymm (heq.trans_le hlow') hlow

/-- In half that unit a ratio below the least double of an exponent rounds to twice its mantissa. -/
theorem Covers.nearestEven_narrow {num den : Nat} (h : x.Covers (num / den)) (hx : x.Fits)
    (hd : 0 < den) (hnarrow : x.narrowBelow = true)
    (hlt : (num : ℚ) / den < 2 ^ (x.exponent + (52 : Nat))) :
    nearestEven (num * twoTo (-(x.exponent - 1))) (den * twoTo (x.exponent - 1)) =
      2 * mantissaUnit := by
  refine nearestEven_scaled hd (x.exponent - 1) ?_ ?_ fun _ => rfl
  · rw [sub_sub, one_add_one_eq_two, ← lowEnd_narrow hx hnarrow]
    exact h.1
  · rw [two_zpow_add] at hlt
    rw [sub_sub, one_add_one_eq_two]
    refine hlt.le.trans (mul_le_mul_of_nonneg_right ?_ (two_zpow_pos _).le)
    norm_num [mantissaUnit]

/-- The least double of an exponent is where the mantissa of the exponent below overflows. -/
theorem Fits.bits_narrow (hx : x.Fits) (hnarrow : x.narrowBelow = true) :
    (x.exponent - 1 + 1074).toNat * mantissaUnit + 2 * mantissaUnit = x.bits := by
  obtain ⟨hmantissa, hexponent⟩ := hx.narrow.1 hnarrow
  have hcarry : (x.exponent + 1074).toNat = (x.exponent - 1 + 1074).toNat + 1 := by omega
  rw [bits, hmantissa, hcarry]
  ring

/-- A ratio in the interval of a double has it as its nearest double. -/
theorem Covers.nearestBits_eq {num den : Nat} (h : x.Covers (num / den)) (hx : x.Fits)
    (hd : 0 < den) (hfinite : x.bits < infinityBits) : nearestBits num den = x.bits := by
  have hn : 0 < num := by
    by_contra hzero
    have hpos := h.pos hx
    rw [Nat.eq_zero_of_not_pos hzero] at hpos
    simp at hpos
  obtain ⟨hlog, hlog'⟩ := log2Ratio_spec hn hd
  unfold nearestBits
  rw [if_neg hn.ne']
  dsimp only
  rcases h.unit hx hlog hlog' with hq | ⟨hnarrow, hq, hk⟩
  · rw [hq, h.nearestEven_mantissa hd]
    exact min_eq_right hfinite.le
  · rw [hk] at hlog'
    rw [hq, h.nearestEven_narrow hx hd hnarrow hlog', hx.bits_narrow hnarrow]
    exact min_eq_right hfinite.le

end

end Dyadic

end Offside.Decimal
