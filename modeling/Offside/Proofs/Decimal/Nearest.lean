import Offside.Decimal.Positional
import Offside.Proofs.Decimal.Rounding

/-!
# A numeral is read as the nearest double

`bitsValue` gives the value of the double with the given bits; it grows with the bits. The bits of
infinity stand for `2^1024`, where the next double would be, as the rule of rounding has it. A
double is the nearest one to a real if the real lies between the halves of the gaps to its
neighbours.

Results:
* `bitsValue_scale`, `bitsValue_strictMono`: the values of doubles.
* `IsNearest.of_halves`: the nearest double, told from its two neighbours.
* `nearestBits_isNearest`: a ratio has the bits of the nearest double.
* `parse?_nearest`: so has a numeral.
-/

namespace Offside.Decimal

/-- The value of the double with the given bits, of `2^1024` for those of infinity. -/
def bitsValue (bits : Nat) : ℚ :=
  (Dyadic.ofBits bits).mantissa * 2 ^ (Dyadic.ofBits bits).exponent

/-- The bits of `m * 2^q`. -/
def scale (q : Int) (m : Nat) : Nat := (q + 1074).toNat * mantissaUnit + m

/-- Is `q` the least exponent that `m` can be written with, or does `m` just overflow it? -/
structure Scales (q : Int) (m : Nat) : Prop where
  least : -1074 ≤ q
  le : m ≤ 2 * mantissaUnit
  full : m < mantissaUnit → q = -1074

/-- Is `m` the number of units of `2^q` nearest to `v`, the even one of two, for the least `q` that
`v` can be measured with? -/
structure Rounded (q : Int) (m : Nat) (v : ℚ) : Prop extends Scales q m where
  normal : -1074 < q → mantissaUnit * 2 ^ q ≤ v
  low : (2 * m - 1) * 2 ^ q ≤ 2 * v
  high : 2 * v ≤ (2 * m + 1) * 2 ^ q
  even : (2 * m - 1) * 2 ^ q = 2 * v ∨ 2 * v = (2 * m + 1) * 2 ^ q → m % 2 = 0

/-- Are these the bits of the double nearest to `v`, and even if another is as near? -/
structure IsNearest (bits : Nat) (v : ℚ) : Prop where
  le : bits ≤ infinityBits
  near : ∀ other ≤ infinityBits, |bitsValue bits - v| ≤ |bitsValue other - v|
  even : ∀ other ≤ infinityBits, other ≠ bits → |bitsValue other - v| = |bitsValue bits - v| →
    bits % 2 = 0

/-! ## Values of doubles -/

theorem mantissaUnit_pos : 0 < mantissaUnit := by decide

theorem mantissaUnit_mul_zpow (q : Int) : (mantissaUnit : ℚ) * 2 ^ q = 2 ^ (q + 52) := by
  have hunit : (mantissaUnit : ℚ) = 2 ^ (52 : Int) := by norm_num [mantissaUnit]
  rw [hunit, ← zpow_add₀ two_ne_zero, add_comm]

theorem bitsValue_nonneg (bits : Nat) : 0 ≤ bitsValue bits :=
  mul_nonneg (Nat.cast_nonneg _) (two_zpow_pos _).le

theorem ofBits_of_lt {m : Nat} (h : m < mantissaUnit) : Dyadic.ofBits m = ⟨m, -1074, false⟩ := by
  unfold Dyadic.ofBits
  dsimp only
  rw [Nat.div_eq_of_lt h, Nat.mod_eq_of_lt h, if_pos rfl]

theorem ofBits_of_field {bits k f : Nat} (hfield : bits / mantissaUnit = k + 1)
    (hfraction : bits % mantissaUnit = f) :
    (Dyadic.ofBits bits).mantissa = mantissaUnit + f ∧
      (Dyadic.ofBits bits).exponent = (k : Int) - 1074 := by
  unfold Dyadic.ofBits
  dsimp only
  rw [hfield, hfraction, if_neg (Nat.succ_ne_zero k)]
  refine ⟨rfl, ?_⟩
  push_cast
  ring

theorem bitsValue_of_field {f : Nat} (k : Nat) (h : f < mantissaUnit) :
    bitsValue ((k + 1) * mantissaUnit + f) = (mantissaUnit + f : Nat) * 2 ^ ((k : Int) - 1074) := by
  have hfield : ((k + 1) * mantissaUnit + f) / mantissaUnit = k + 1 := by
    rw [Nat.add_comm, Nat.add_mul_div_right _ _ mantissaUnit_pos, Nat.div_eq_of_lt h, Nat.zero_add]
  have hfraction : ((k + 1) * mantissaUnit + f) % mantissaUnit = f := by
    rw [Nat.add_comm, Nat.add_mul_mod_self_right, Nat.mod_eq_of_lt h]
  obtain ⟨hmantissa, hexponent⟩ := ofBits_of_field hfield hfraction
  rw [bitsValue, hmantissa, hexponent]

section

variable {q : Int} {m : Nat}

theorem scale_succ (q : Int) (m : Nat) : scale q m + 1 = scale q (m + 1) := Nat.add_assoc _ _ _

theorem bitsValue_scale (h : Scales q m) : bitsValue (scale q m) = m * 2 ^ q := by
  obtain ⟨hleast, hle, hfull⟩ := h
  obtain ⟨k, rfl⟩ : ∃ k : Nat, q = (k : Int) - 1074 := ⟨(q + 1074).toNat, by omega⟩
  have hk : ((k : Int) - 1074 + 1074).toNat = k := by omega
  rw [scale, hk]
  rcases Nat.lt_or_ge m mantissaUnit with hm | hm
  · obtain rfl : k = 0 := by have := hfull hm; omega
    rw [Nat.zero_mul, Nat.zero_add, bitsValue, ofBits_of_lt hm, Nat.cast_zero, zero_sub]
  · obtain ⟨f, rfl⟩ := Nat.exists_eq_add_of_le hm
    rcases Nat.lt_or_ge f mantissaUnit with hf | hf
    · have hbits : k * mantissaUnit + (mantissaUnit + f) = (k + 1) * mantissaUnit + f := by
        rw [Nat.add_mul, Nat.one_mul, Nat.add_assoc]
      rw [hbits, bitsValue_of_field k hf]
    · -- The mantissa overflows into the next exponent.
      obtain rfl : f = mantissaUnit := by omega
      have hbits : k * mantissaUnit + (mantissaUnit + mantissaUnit) =
          (k + 1 + 1) * mantissaUnit + 0 := by
        rw [Nat.add_zero, Nat.add_mul, Nat.add_mul, Nat.one_mul, ← Nat.add_assoc]
      have hnext : ((k + 1 : Nat) : Int) - 1074 = ((k : Int) - 1074) + 1 := by omega
      rw [hbits, bitsValue_of_field (k + 1) mantissaUnit_pos, hnext, zpow_add_one₀ two_ne_zero,
        Nat.cast_add, Nat.cast_add, Nat.cast_zero]
      ring

/-- All bits are bits of some scale. -/
theorem exists_scale (n : Nat) : ∃ q m, n = scale q m ∧ Scales q m ∧ m < 2 * mantissaUnit := by
  rcases Nat.eq_zero_or_pos n with rfl | hn
  · exact ⟨-1074, 0, rfl, ⟨le_rfl, Nat.zero_le _, fun _ => rfl⟩,
      Nat.mul_pos two_pos mantissaUnit_pos⟩
  · have hfits := Dyadic.ofBits_fits hn
    exact ⟨_, _, (Dyadic.bits_ofBits n).symm, ⟨hfits.least, hfits.lt.le, hfits.full⟩, hfits.lt⟩

theorem Scales.succ (h : Scales q m) (hlt : m < 2 * mantissaUnit) : Scales q (m + 1) :=
  ⟨h.least, hlt, fun hm => h.full (Nat.lt_of_succ_lt hm)⟩

theorem bitsValue_strictMono : StrictMono bitsValue := by
  refine strictMono_nat_of_lt_succ fun n => ?_
  obtain ⟨q, m, rfl, hscales, hlt⟩ := exists_scale n
  rw [scale_succ, bitsValue_scale hscales,
    bitsValue_scale (hscales.succ hlt)]
  refine mul_lt_mul_of_pos_right ?_ (two_zpow_pos q)
  exact_mod_cast Nat.lt_succ_self m

/-- The next double is at least a unit away. -/
theorem Scales.le_bitsValue_succ (h : Scales q m) :
    (m + 1) * 2 ^ q ≤ bitsValue (scale q m + 1) := by
  rcases Nat.lt_or_ge m (2 * mantissaUnit) with hlt | hge
  · rw [scale_succ, bitsValue_scale (h.succ hlt), Nat.cast_succ]
  · have hm : m = 2 * mantissaUnit := le_antisymm h.le hge
    have hleast := h.least
    have hunit := mantissaUnit_pos
    have hnext : Scales (q + 1) (mantissaUnit + 1) := ⟨by omega, by omega, fun hm => by omega⟩
    have hbits : scale q m + 1 = scale (q + 1) (mantissaUnit + 1) := by
      have hexp : (q + 1 + 1074).toNat = (q + 1074).toNat + 1 := by omega
      rw [scale, scale, hexp, hm, Nat.add_mul, Nat.one_mul, Nat.two_mul]
      simp only [Nat.add_assoc]
    have hcast : (m : ℚ) = 2 * mantissaUnit := by rw [hm, Nat.cast_mul, Nat.cast_two]
    rw [hbits, bitsValue_scale hnext, zpow_add_one₀ two_ne_zero, hcast, Nat.cast_succ]
    nlinarith [two_zpow_pos q]

end

/-! ## The nearest double -/

/-- A double is the nearest to what lies between the middles of the gaps around it. -/
theorem IsNearest.of_halves {n : Nat} {v : ℚ} (hn : n ≤ infinityBits)
    (hlow : ∀ k, k + 1 = n → bitsValue k + bitsValue n ≤ 2 * v ∧
      (bitsValue k + bitsValue n = 2 * v → n % 2 = 0))
    (hhigh : n < infinityBits → 2 * v ≤ bitsValue n + bitsValue (n + 1) ∧
      (2 * v = bitsValue n + bitsValue (n + 1) → n % 2 = 0)) : IsNearest n v := by
  have hbelow : ∀ k < n, bitsValue k + bitsValue n ≤ 2 * v ∧
      (bitsValue k + bitsValue n = 2 * v → n % 2 = 0) := by
    intro k hk
    obtain ⟨hle, heven⟩ := hlow (n - 1) (by omega)
    have hmono := bitsValue_strictMono.monotone (show k ≤ n - 1 by omega)
    exact ⟨by linarith, fun heq => heven (by linarith)⟩
  have habove : ∀ k ≤ infinityBits, n < k → 2 * v ≤ bitsValue n + bitsValue k ∧
      (2 * v = bitsValue n + bitsValue k → n % 2 = 0) := by
    intro k hk hnk
    obtain ⟨hle, heven⟩ := hhigh (by omega)
    have hmono := bitsValue_strictMono.monotone (show n + 1 ≤ k from hnk)
    exact ⟨by linarith, fun heq => heven (by linarith)⟩
  refine ⟨hn, fun k hk => ?_, fun k hk hne heq => ?_⟩
  · rcases Nat.lt_trichotomy k n with hlt | rfl | hgt
    · have hvalue := bitsValue_strictMono hlt
      have hmiddle := (hbelow k hlt).1
      rw [abs_of_nonpos (show bitsValue k - v ≤ 0 by linarith), abs_le]
      constructor <;> linarith
    · exact le_rfl
    · have hvalue := bitsValue_strictMono hgt
      have hmiddle := (habove k hk hgt).1
      rw [abs_of_nonneg (show 0 ≤ bitsValue k - v by linarith), abs_le]
      constructor <;> linarith
  · rcases Nat.lt_or_gt_of_ne hne with hlt | hgt
    · have hvalue := bitsValue_strictMono hlt
      obtain ⟨hmiddle, heven⟩ := hbelow k hlt
      rw [abs_of_nonpos (show bitsValue k - v ≤ 0 by linarith)] at heq
      rcases abs_choice (bitsValue n - v) with habs | habs <;> rw [habs] at heq
      · exact heven (by linarith)
      · linarith
    · have hvalue := bitsValue_strictMono hgt
      obtain ⟨hmiddle, heven⟩ := habove k hk hgt
      rw [abs_of_nonneg (show 0 ≤ bitsValue k - v by linarith)] at heq
      rcases abs_choice (bitsValue n - v) with habs | habs <;> rw [habs] at heq
      · linarith
      · exact heven (by linarith)

section

variable {q : Int} {m : Nat} {v : ℚ}

theorem scale_mod_two (q : Int) (m : Nat) : scale q m % 2 = m % 2 := by
  have heven : mantissaUnit % 2 = 0 := by decide
  rw [scale, Nat.add_mod, Nat.mul_mod, heven, Nat.mul_zero, Nat.zero_mod, Nat.zero_add, Nat.mod_mod]

/-- What is rounded lies above the middle of the gap below. -/
theorem Rounded.low_half (h : Rounded q m v) {k : Nat} (hk : k + 1 = scale q m) :
    bitsValue k + bitsValue (scale q m) ≤ 2 * v ∧
      (bitsValue k + bitsValue (scale q m) = 2 * v → scale q m % 2 = 0) := by
  have hvalue := bitsValue_scale h.toScales
  by_cases hnarrow : m = mantissaUnit ∧ -1074 < q
  · -- The gap below the least double of an exponent is half a unit; nothing is rounded up to it.
    have hlt := bitsValue_strictMono (show k < scale q m by omega)
    have hle := h.normal hnarrow.2
    rw [← hnarrow.1, ← hvalue] at hle
    exact ⟨by linarith, fun heq => by linarith⟩
  · obtain ⟨j, rfl⟩ : ∃ j, m = j + 1 := by
      refine Nat.exists_eq_succ_of_ne_zero fun hzero => ?_
      have hleast := h.full (hzero ▸ mantissaUnit_pos)
      rw [hzero, hleast] at hk
      exact Nat.succ_ne_zero k hk
    have hleast := h.least
    have hj : Scales q j := by
      have hle := h.le
      have hfull := h.full
      exact ⟨hleast, by omega, fun _ => by omega⟩
    obtain rfl : k = scale q j := Nat.succ_injective (hk.trans (scale_succ q j).symm)
    have hsum : bitsValue (scale q j) + bitsValue (scale q (j + 1)) =
        (2 * (j + 1 : Nat) - 1) * 2 ^ q := by
      rw [bitsValue_scale hj, hvalue]
      push_cast
      ring
    rw [hsum, scale_mod_two]
    exact ⟨h.low, fun heq => h.even (.inl heq)⟩

/-- It lies below the middle of the gap above. -/
theorem Rounded.high_half (h : Rounded q m v) :
    2 * v ≤ bitsValue (scale q m) + bitsValue (scale q m + 1) ∧
      (2 * v = bitsValue (scale q m) + bitsValue (scale q m + 1) → scale q m % 2 = 0) := by
  have hsum : (2 * m + 1) * 2 ^ q ≤ bitsValue (scale q m) + bitsValue (scale q m + 1) := by
    have hnext := h.le_bitsValue_succ
    rw [bitsValue_scale h.toScales]
    linarith
  rw [scale_mod_two]
  exact ⟨h.high.trans hsum, fun heq => h.even (.inr (le_antisymm h.high (hsum.trans_eq heq.symm)))⟩

/-- What is rounded beyond the doubles is nearest to infinity. -/
theorem Rounded.isNearest (h : Rounded q m v) : IsNearest (min infinityBits (scale q m)) v := by
  rcases le_or_gt (scale q m) infinityBits with hle | hgt
  · rw [min_eq_right hle]
    exact IsNearest.of_halves hle (fun k => h.low_half) fun _ => h.high_half
  · rw [min_eq_left hgt.le]
    refine IsNearest.of_halves le_rfl (fun k hk => ?_) fun hlt => absurd hlt (lt_irrefl _)
    obtain ⟨hmiddle, -⟩ := h.low_half (k := scale q m - 1) (by omega)
    have hbelow := bitsValue_strictMono.monotone (show k ≤ scale q m - 1 by omega)
    have habove := bitsValue_strictMono.monotone hgt.le
    exact ⟨by linarith, fun _ => by decide⟩

end

/-! ## Ratios -/

section

variable {num den : Nat} {q : Int}

/-- Rounding to units of `2^q` is off by half a unit at most, and to an even number if by just as
much. -/
theorem nearestEven_halves (num : Nat) (hd : 0 < den) (q : Int) :
    let m := nearestEven (num * twoTo (-q)) (den * twoTo q)
    (2 * m - 1 : ℚ) * 2 ^ q ≤ 2 * (num / den) ∧ 2 * (num / den : ℚ) ≤ (2 * m + 1) * 2 ^ q ∧
      ((2 * m - 1 : ℚ) * 2 ^ q = 2 * (num / den) ∨ 2 * (num / den : ℚ) = (2 * m + 1) * 2 ^ q →
        m % 2 = 0) := by
  intro m
  obtain ⟨u, hu, hratio, hunit⟩ := exists_common_unit num hd q
  have hdouble : 2 * (num / den : ℚ) = (2 * (num * twoTo (-q)) : Nat) * u := by
    rw [hratio]
    push_cast
    ring
  obtain ⟨hhigh, hlow⟩ := nearestEven_near (num * twoTo (-q)) (Nat.mul_pos hd (twoTo_pos q))
  have hhigh' : ((2 * (num * twoTo (-q)) : Nat) : ℚ) ≤ (2 * m + 1) * (den * twoTo q : Nat) := by
    exact_mod_cast hhigh
  have hlow' : 2 * (m : ℚ) * (den * twoTo q : Nat) ≤
      (2 * (num * twoTo (-q)) : Nat) + (den * twoTo q : Nat) := by exact_mod_cast hlow
  rw [hdouble, hunit]
  refine ⟨by nlinarith, by nlinarith, fun htie => ?_⟩
  rcases htie with htie | htie
  · replace htie := mul_right_cancel₀ hu.ne' ((mul_assoc _ _ _).trans htie)
    have hunits : (0 : ℚ) < (den * twoTo q : Nat) := Nat.cast_pos.2 (Nat.mul_pos hd (twoTo_pos q))
    obtain ⟨k, hk⟩ : ∃ k, m = k + 1 := by
      refine Nat.exists_eq_succ_of_ne_zero fun hzero => ?_
      have hnonneg : (0 : ℚ) ≤ (2 * (num * twoTo (-q)) : Nat) := Nat.cast_nonneg _
      rw [hzero, Nat.cast_zero] at htie
      linarith
    refine nearestEven_of_half (k := k) ?_
    rw [hk, Nat.cast_succ] at htie
    have hodd : (2 * ((k : ℚ) + 1) - 1) = (2 * k + 1 : Nat) := by push_cast; ring
    rw [hodd] at htie
    exact_mod_cast htie.symm
  · replace htie := mul_right_cancel₀ hu.ne' (htie.trans (mul_assoc _ _ _).symm)
    refine nearestEven_of_half (k := m) ?_
    exact_mod_cast htie

theorem mantissaUnit_mul_le (hn : 0 < num) (hd : 0 < den)
    (hq : q = max (-1074) (log2Ratio num den - 52)) (hnormal : -1074 < q) :
    (mantissaUnit : ℚ) * 2 ^ q ≤ num / den := by
  rw [mantissaUnit_mul_zpow]
  exact le_trans (zpow_le_zpow_right₀ one_le_two (by omega)) (log2Ratio_spec hn hd).1

theorem lt_mantissaUnit_mul (hn : 0 < num) (hd : 0 < den)
    (hq : q = max (-1074) (log2Ratio num den - 52)) :
    (num : ℚ) / den < 2 * mantissaUnit * 2 ^ q := by
  rw [mul_assoc, mantissaUnit_mul_zpow, ← zpow_one_add₀ two_ne_zero]
  exact (log2Ratio_spec hn hd).2.trans_le (zpow_le_zpow_right₀ one_le_two (by omega))

theorem rounded_nearestEven (hn : 0 < num) (hd : 0 < den)
    (hq : q = max (-1074) (log2Ratio num den - 52)) :
    Rounded q (nearestEven (num * twoTo (-q)) (den * twoTo q)) (num / den) := by
  obtain ⟨hlow, hhigh, heven⟩ := nearestEven_halves num hd q
  generalize nearestEven (num * twoTo (-q)) (den * twoTo q) = m at *
  have hunit := two_zpow_pos q
  have hscales : Scales q m := by
    refine ⟨by omega, ?_, fun hm => ?_⟩
    · have htop := lt_mantissaUnit_mul hn hd hq
      have hlt : (2 * m - 1 : ℚ) < 2 * (2 * mantissaUnit) :=
        lt_of_mul_lt_mul_right (by linarith) hunit.le
      have hlt' : 2 * m < 2 * (2 * mantissaUnit) + 1 := by
        exact_mod_cast (show (2 * m : ℚ) < 2 * (2 * mantissaUnit) + 1 by linarith)
      omega
    · by_contra hne
      have hbottom := mantissaUnit_mul_le hn hd hq (by omega)
      have hle : (2 * mantissaUnit : ℚ) ≤ 2 * m + 1 :=
        le_of_mul_le_mul_right (by linarith) hunit
      have hle' : 2 * mantissaUnit ≤ 2 * m + 1 := by exact_mod_cast hle
      omega
  exact ⟨hscales, mantissaUnit_mul_le hn hd hq, hlow, hhigh, heven⟩

end

theorem nearestBits_isNearest (num : Nat) {den : Nat} (hd : 0 < den) :
    IsNearest (nearestBits num den) (num / den) := by
  rcases Nat.eq_zero_or_pos num with rfl | hn
  · rw [nearestBits, if_pos rfl, Nat.cast_zero, zero_div]
    refine IsNearest.of_halves (Nat.zero_le _) nofun fun _ => ⟨?_, fun _ => rfl⟩
    rw [mul_zero]
    exact add_nonneg (bitsValue_nonneg 0) (bitsValue_nonneg (0 + 1))
  · rw [nearestBits, if_neg hn.ne']
    exact (rounded_nearestEven hn hd rfl).isNearest

/-! ## Numerals -/

/-- The value of a numeral. -/
def numeralValue (text : List Char) : ℚ :=
  let whole := text.takeWhile (· ≠ '.')
  let fraction := (text.dropWhile (· ≠ '.')).drop 1
  digitsValue whole + digitsValue fraction / 10 ^ fraction.length

theorem digitsValue_append (a b : List Char) :
    digitsValue (a ++ b) = digitsValue a * 10 ^ b.length + digitsValue b := by
  show Nat.ofDigitChars 10 (a ++ b) 0 = _
  rw [Nat.ofDigitChars_append, Nat.ofDigitChars_eq_ofDigitChars_zero, Nat.mul_comm]
  rfl

theorem digitsValue_div_tenTo (whole fraction : List Char) :
    (digitsValue (whole ++ fraction) : ℚ) / tenTo fraction.length =
      digitsValue whole + digitsValue fraction / 10 ^ fraction.length := by
  have hten : (tenTo fraction.length : ℚ) = 10 ^ fraction.length := Nat.cast_pow 10 _
  have hne : (10 : ℚ) ^ fraction.length ≠ 0 := pow_ne_zero _ (by norm_num)
  rw [digitsValue_append, hten]
  push_cast
  rw [add_div, mul_div_cancel_right₀ _ hne]

/-- **Numerals.** A numeral is read as the double nearest to its value. -/
theorem parse?_nearest {text : List Char} {x : Float} (h : parse? text = some x) :
    ∃ bits, x = Float.ofBits (UInt64.ofNat bits) ∧ IsNearest bits (numeralValue text) := by
  unfold parse? at h
  dsimp only at h
  split at h
  · cases h
    refine ⟨_, rfl, ?_⟩
    have hnearest := nearestBits_isNearest (digitsValue (text.takeWhile (· ≠ '.') ++
      (text.dropWhile (· ≠ '.')).drop 1)) (tenTo_pos ((text.dropWhile (· ≠ '.')).drop 1).length)
    rw [digitsValue_div_tenTo] at hnearest
    exact hnearest
  · cases h

end Offside.Decimal
