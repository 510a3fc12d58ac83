import Mathlib
import Offside.Proofs.Decimal.Shortest
import Offside.Proofs.Lexer.TokenLanguage

/-!
# Numbers are read back

The text of a finite number without a sign is a numeral, digits with at most one point between them,
and reading it gives the number back.

Results:
* `positional_spec`: the text of a decimal has its value.
* `beq_self_of_isFinite`: a finite number is equal to itself.
* `parse?_render`: the text of a number is read as this number.
* `mem_render`, `render_inj`: the texts of finite numbers, with a sign or not, and that they differ.
-/

namespace Offside.Decimal

/-! ## Runs of digits -/

theorem digitsValue_zeros (n : Nat) : digitsValue (List.replicate n '0') = 0 := by
  show Nat.ofDigitChars 10 (List.replicate n '0') 0 = 0
  rw [Nat.ofDigitChars_replicate_zero, Nat.mul_zero]

theorem digitsValue_toDigits (n : Nat) : digitsValue (Nat.toDigits 10 n) = n :=
  Nat.ofDigitChars_ten_toDigits

/-- A run of digits without the zeros at its end. -/
theorem exists_trailing_zeros (cs : List Char) :
    ∃ n, cs = (cs.reverse.dropWhile (· = '0')).reverse ++ List.replicate n '0' := by
  refine ⟨(cs.reverse.takeWhile (· = '0')).length, ?_⟩
  have hzeros : (cs.reverse.takeWhile (· = '0')).reverse =
      List.replicate (cs.reverse.takeWhile (· = '0')).length '0' := by
    rw [← List.length_reverse]
    refine List.eq_replicate_of_mem fun c hc => ?_
    simpa using List.mem_takeWhile_imp (List.mem_reverse.1 hc)
  rw [← hzeros, ← List.reverse_append, List.takeWhile_append_dropWhile, List.reverse_reverse]

/-! ## Numerals with a digit before the point -/

/-- Digits before and after a point, which stands there only if digits follow it. -/
def joined (whole fraction : List Char) : List Char :=
  if fraction.isEmpty then whole else whole ++ '.' :: fraction

/-- Two runs of digits, the first of them not empty. -/
structure Runs (whole fraction : List Char) : Prop where
  ne_nil : whole ≠ []
  whole : ∀ c ∈ whole, c.isDigit = true
  fraction : ∀ c ∈ fraction, c.isDigit = true

section

variable {whole fraction : List Char}

theorem Runs.isNumeral (h : Runs whole fraction) : IsNumeral (joined whole fraction) := by
  refine ⟨whole, h.whole, ?_⟩
  unfold joined
  split
  · exact Or.inl ⟨h.ne_nil, rfl⟩
  · next hne => exact Or.inr ⟨fraction, by simpa using hne, h.fraction, rfl⟩

theorem Runs.parse?_joined (h : Runs whole fraction) :
    parse? (joined whole fraction) =
      some (nearest (digitsValue (whole ++ fraction)) (tenTo fraction.length)) := by
  have hpoint : ∀ c ∈ whole, decide (c ≠ '.') = true := by
    intro c hc
    refine decide_eq_true fun heq => ?_
    rw [heq] at hc
    exact absurd (h.whole '.' hc) (by decide)
  unfold parse?
  dsimp only
  rw [if_pos (Lexeme.isNumeral_of_isNumeral h.isNumeral)]
  unfold joined
  split
  · next hempty =>
    rw [List.isEmpty_iff.1 hempty, List.takeWhile_eq_self_iff.2 hpoint,
      List.dropWhile_eq_nil_iff.2 hpoint]
    rfl
  · rw [List.takeWhile_append_of_pos hpoint, List.dropWhile_append_of_pos hpoint]
    simp

end

/-- The digits of a decimal, with zeros before them if its first digit stands behind the point. -/
def Scaled.padded (d : Scaled) : List Char :=
  List.replicate ((-d.exponent).toNat + 1 - (Nat.toDigits 10 d.digits).length) '0' ++
    Nat.toDigits 10 d.digits

section

variable (d : Scaled)

theorem isDigit_padded : ∀ c ∈ d.padded, c.isDigit = true := by
  intro c hc
  rcases List.mem_append.1 hc with hc | hc
  · rw [List.eq_of_mem_replicate hc]; rfl
  · exact Nat.isDigit_of_mem_toDigits (by decide) (by decide) hc

theorem length_padded : (-d.exponent).toNat < d.padded.length := by
  rw [Scaled.padded, List.length_append, List.length_replicate]
  omega

theorem digitsValue_padded : digitsValue d.padded = d.digits := by
  rw [Scaled.padded, digitsValue_append, digitsValue_zeros, digitsValue_toDigits]
  omega

theorem tenTo_natCast (n : Nat) : (tenTo n : ℚ) = 10 ^ n := Nat.cast_pow 10 n

/-- Cutting the digits at the point, moving it behind further zeros or dropping zeros at the end of
what follows it leaves their value. -/
theorem value_of_cut {front fraction : List Char} {n : Nat}
    (hcut : d.padded = front ++ (fraction ++ List.replicate n '0'))
    (hplaces : fraction.length + n = (-d.exponent).toNat) :
    (digitsValue (front ++ List.replicate d.exponent.toNat '0' ++ fraction) : ℚ) /
      tenTo fraction.length = d.value := by
  have hdigits := digitsValue_padded d
  rw [hcut] at hdigits
  rw [Scaled.value, tenTo_natCast, ← hdigits]
  by_cases hexponent : 0 ≤ d.exponent
  · obtain ⟨rfl, rfl⟩ : fraction = [] ∧ n = 0 := by
      rw [← List.length_eq_zero_iff]
      omega
    have hexp : (10 : ℚ) ^ d.exponent = 10 ^ d.exponent.toNat := by
      rw [← zpow_natCast, Int.toNat_of_nonneg hexponent]
    simp [digitsValue_append, digitsValue_zeros, hexp]
  · have hzero : d.exponent.toNat = 0 := by omega
    have hexp : (10 : ℚ) ^ d.exponent = 1 / (10 ^ fraction.length * 10 ^ n) := by
      rw [← pow_add, hplaces, ← zpow_natCast, Int.toNat_of_nonneg (by omega), one_div, ← zpow_neg,
        neg_neg]
    rw [← List.append_assoc, digitsValue_append _ (List.replicate n '0'), digitsValue_zeros,
      List.length_replicate, hzero, List.replicate_zero, List.append_nil, hexp]
    push_cast
    field_simp
    ring

theorem positional_spec : ∃ whole fraction, Runs whole fraction ∧
    d.positional = joined whole fraction ∧
    (digitsValue (whole ++ fraction) : ℚ) / tenTo fraction.length = d.value := by
  have hlength := length_padded d
  have hdigit := isDigit_padded d
  have htext : d.positional = joined
      (d.padded.take (d.padded.length - (-d.exponent).toNat) ++
        List.replicate d.exponent.toNat '0')
      ((d.padded.drop (d.padded.length - (-d.exponent).toNat)).reverse.dropWhile
        (· = '0')).reverse := rfl
  have hcut := List.take_append_drop (d.padded.length - (-d.exponent).toNat) d.padded
  have hfront : (d.padded.take (d.padded.length - (-d.exponent).toNat)).length =
      d.padded.length - (-d.exponent).toNat := List.length_take_of_le (Nat.sub_le _ _)
  have hback : (d.padded.drop (d.padded.length - (-d.exponent).toNat)).length =
      (-d.exponent).toNat := by
    rw [List.length_drop]
    omega
  generalize d.padded.take (d.padded.length - (-d.exponent).toNat) = front at htext hcut hfront
  generalize d.padded.drop (d.padded.length - (-d.exponent).toNat) = back at htext hcut hback
  obtain ⟨n, hn⟩ := exists_trailing_zeros back
  generalize (back.reverse.dropWhile (· = '0')).reverse = fraction at htext hn
  subst hn
  rw [← hcut] at hdigit
  rw [List.length_append, List.length_replicate] at hback
  refine ⟨_, fraction, ⟨?_, ?_, ?_⟩, htext, value_of_cut d hcut.symm hback⟩
  · refine List.append_ne_nil_of_left_ne_nil (List.ne_nil_of_length_pos ?_) _
    omega
  · intro c hc
    rcases List.mem_append.1 hc with hc | hc
    · exact hdigit c (List.mem_append_left _ hc)
    · rw [List.eq_of_mem_replicate hc]; rfl
  · intro c hc
    exact hdigit c (by simp [hc])

end

/-! ## Numbers -/

/-- The text of the double with the given bits is a numeral that is read as this double. -/
theorem magnitudeText_spec {bits : Nat} (h : bits < infinityBits) :
    IsNumeral (magnitudeText bits) ∧
      parse? (magnitudeText bits) = some (Float.ofBits (UInt64.ofNat bits)) := by
  unfold magnitudeText
  split
  · next hzero =>
    have hruns : Runs ['0'] [] := ⟨by simp, by simp, by simp⟩
    subst hzero
    exact ⟨hruns.isNumeral, hruns.parse?_joined⟩
  · next hpos =>
    have hfits := Dyadic.ofBits_fits (Nat.pos_of_ne_zero hpos)
    obtain ⟨whole, fraction, hruns, htext, hvalue⟩ := positional_spec (Dyadic.ofBits bits).shortest
    have hcovers := Dyadic.covers_shortest hfits
    rw [← hvalue] at hcovers
    rw [htext]
    refine ⟨hruns.isNumeral, ?_⟩
    rw [hruns.parse?_joined, nearest, hcovers.nearestBits_eq hfits (tenTo_pos _),
      Dyadic.bits_ofBits]
    rw [Dyadic.bits_ofBits]
    exact h

/-! ## Finite numbers -/

open Float.Model.UnpackedFloat in
theorem toNat_unpackExponent (b : UInt64) :
    (@unpackExponent .binary64 b.toBitVec).toNat = b.toNat / 2 ^ 52 % 2 ^ 11 := by
  rw [unpackExponent_def, BitVec.extractLsb'_toNat, Nat.shiftRight_eq_div_pow]
  rfl

open Float.Model.UnpackedFloat in
/-- A full exponent field makes no finite number, so but for the sign the bits are below those of
infinity. -/
theorem magnitude_lt_infinityBits {x : Float} (hfinite : x.isFinite = true) :
    x.toBits.toNat % signBit < infinityBits := by
  have hunpacked : (unpack .binary64 x.toBits.toBitVec).isFinite = true := hfinite
  have hfield : x.toBits.toNat / 2 ^ 52 % 2 ^ 11 ≠ 2047 := by
    intro hfull
    have hexponent : @unpackExponent .binary64 x.toBits.toBitVec = -1#_ := by
      refine BitVec.eq_of_toNat_eq ?_
      rw [toNat_unpackExponent]
      exact hfull
    rw [unpack, if_pos hexponent] at hunpacked
    split at hunpacked <;> cases hunpacked
  simp only [infinityBits, mantissaUnit, signBit]
  omega

theorem toBits_lt_infinityBits {x : Float} (hfinite : x.isFinite = true)
    (hsign : x.toBits.toNat < signBit) : x.toBits.toNat < infinityBits := by
  have hlt := magnitude_lt_infinityBits hfinite
  rwa [Nat.mod_eq_of_lt hsign] at hlt

theorem beq_self_of_isFinite {x : Float} (h : x.isFinite = true) : (x == x) = true := by
  refine Float.beq_self_iff.2 ?_
  rintro rfl
  have hnan : Float.nan.isFinite = false := by decide +kernel
  rw [hnan] at h
  cases h

/-- **Numbers.** The text of a finite number without a sign is a numeral, and reading it gives the
number back. -/
theorem parse?_render {x : Float} (hfinite : x.isFinite = true) (hsign : x.toBits.toNat < signBit) :
    IsNumeral (render x).toList ∧ parse? (render x).toList = some x := by
  have hrender : (render x).toList = magnitudeText x.toBits.toNat := by
    unfold render
    dsimp only
    rw [if_neg (by omega), Nat.mod_eq_of_lt hsign, List.nil_append, String.toList_ofList]
  rw [hrender]
  obtain ⟨hnumeral, hparse⟩ := magnitudeText_spec (toBits_lt_infinityBits hfinite hsign)
  refine ⟨hnumeral, ?_⟩
  rw [hparse, UInt64.ofNat_toNat, Float.ofBits_toBits]

/-! ## Different texts for different numbers -/

open Float.Model.UnpackedFloat in
/-- Bits below those of infinity are kept by the double that they make. -/
theorem toBits_ofBits {bits : Nat} (h : bits < infinityBits) :
    (Float.ofBits (UInt64.ofNat bits)).toBits = UInt64.ofNat bits := by
  refine UInt64.toBitVec_inj.1 (pack_unpack_of_valid ⟨fun hfull => ?_⟩)
  have hexponent := congrArg BitVec.toNat hfull
  rw [toNat_unpackExponent, UInt64.toNat_ofNat'] at hexponent
  have hones : (-1#11).toNat = 2047 := rfl
  simp only [infinityBits, mantissaUnit] at h
  change bits % 2 ^ 64 / 2 ^ 52 % 2 ^ 11 = (-1#11).toNat at hexponent
  omega

theorem magnitudeText_inj {a b : Nat} (ha : a < infinityBits) (hb : b < infinityBits)
    (h : magnitudeText a = magnitudeText b) : a = b := by
  have hparse := (magnitudeText_spec ha).2
  rw [h, (magnitudeText_spec hb).2, Option.some.injEq] at hparse
  have hbits := congrArg (fun x => x.toBits.toNat) hparse
  simp only [toBits_ofBits ha, toBits_ofBits hb, UInt64.toNat_ofNat'] at hbits
  simp only [infinityBits, mantissaUnit] at ha hb
  omega

theorem toList_render {x : Float} (hfinite : x.isFinite = true) :
    (render x).toList =
      (if signBit ≤ x.toBits.toNat then ['-'] else []) ++
        magnitudeText (x.toBits.toNat % signBit) := by
  unfold render
  simp only [String.toList_ofList, Nat.le_of_lt (magnitude_lt_infinityBits hfinite), and_true]

theorem isDigit_or_point_of_mem {text : List Char} (h : IsNumeral text) {c : Char} (hc : c ∈ text) :
    c.isDigit = true ∨ c = '.' := by
  obtain ⟨whole, hwhole, ⟨-, rfl⟩ | ⟨fraction, -, hfraction, rfl⟩⟩ := h
  · exact Or.inl (hwhole c hc)
  · rcases List.mem_append.1 hc with hc | hc
    · exact Or.inl (hwhole c hc)
    · rcases List.mem_cons.1 hc with rfl | hc
      · exact Or.inr rfl
      · exact Or.inl (hfraction c hc)

/-- The text of a finite number is made of digits, a point and a sign. -/
theorem mem_render {x : Float} (hfinite : x.isFinite = true) {c : Char}
    (hc : c ∈ (render x).toList) : c.isDigit = true ∨ c = '.' ∨ c = '-' := by
  rw [toList_render hfinite, List.mem_append] at hc
  rcases hc with hc | hc
  · split at hc
    · exact Or.inr (Or.inr (List.mem_singleton.1 hc))
    · cases hc
  · have hnumeral := (magnitudeText_spec (magnitude_lt_infinityBits hfinite)).1
    exact (isDigit_or_point_of_mem hnumeral hc).imp_right Or.inl

theorem render_ne_nil {x : Float} (hfinite : x.isFinite = true) : (render x).toList ≠ [] := by
  obtain ⟨hnumeral, hparse⟩ := magnitudeText_spec (magnitude_lt_infinityBits hfinite)
  rw [toList_render hfinite]
  exact List.append_ne_nil_of_right_ne_nil _ (Spells.number hnumeral hparse).ne_nil

/-- **Distinct numbers.** The texts of different finite numbers differ. -/
theorem render_inj {x y : Float} (hx : x.isFinite = true) (hy : y.isFinite = true)
    (h : render x = render y) : x = y := by
  have htext := congrArg String.toList h
  have hnumeral : ∀ {z : Float}, z.isFinite = true →
      '-' ∉ magnitudeText (z.toBits.toNat % signBit) := by
    intro z hz hmem
    have hchar := isDigit_or_point_of_mem
      (magnitudeText_spec (magnitude_lt_infinityBits hz)).1 hmem
    revert hchar; decide
  have hbits : ∀ z : Float, z.toBits.toNat < 2 * signBit := fun z => UInt64.toNat_lt_size z.toBits
  have hbx := hbits x
  have hby := hbits y
  refine Float.toBits_inj.1 (UInt64.toNat_inj.1 ?_)
  rw [toList_render hx, toList_render hy] at htext
  have hmagnitude := magnitudeText_inj (magnitude_lt_infinityBits hx) (magnitude_lt_infinityBits hy)
  -- The sign is the one character that a magnitude does not have.
  split at htext <;> split at htext
  · have heq := hmagnitude (List.cons.inj htext).2
    simp only [signBit] at *; omega
  · exact absurd (by rw [List.nil_append] at htext; rw [← htext]; simp) (hnumeral hy)
  · exact absurd (by rw [List.nil_append] at htext; rw [htext]; simp) (hnumeral hx)
  · have heq := hmagnitude htext
    simp only [signBit] at *; omega

end Offside.Decimal
