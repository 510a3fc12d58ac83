/-!
# The double nearest to a ratio

A positive double is `m * 2^q` with `m < 2^53` and `-1074 ≤ q`. Its bits are `(q + 1074) * 2^52 + m`
whenever `q` is the least exponent that fits, and the formula goes on to hold when rounding carries
`m` up to `2^53`: the carry lands in the exponent.

Results:
* `nearestEven_near`: the rounded quotient is within half a unit of the ratio.
* `nearestEven_even`: halfway between two integers it is the even one.
-/

namespace Offside.Decimal

/-- The integer nearest to `num / den`; a half goes to the even neighbour. -/
def nearestEven (num den : Nat) : Nat :=
  let q := num / den
  let r := num % den
  if 2 * r < den then q else if den < 2 * r then q + 1 else q + q % 2

/-- `2^k`, or 1 for a negative `k`: the factor that a scale of `2^k` puts on one side of a ratio. -/
def twoTo (k : Int) : Nat := Nat.pow 2 k.toNat

/-- `10^k`, or 1 for a negative `k`. -/
def tenTo (k : Int) : Nat := Nat.pow 10 k.toNat

/-- `2^52`: one step of the exponent field of a double. -/
def mantissaUnit : Nat := 0x10000000000000

/-- The greatest `k` with `2^k ≤ num / den`, for positive `num` and `den`. -/
def log2Ratio (num den : Nat) : Int :=
  let k : Int := num.log2 - den.log2
  if den * twoTo k ≤ num * twoTo (-k) then k else k - 1

/-- The bits of positive infinity, one more than those of the greatest double. -/
def infinityBits : Nat := 2047 * mantissaUnit

/-- The bits of the double nearest to `num / den`, which is not negative. -/
def nearestBits (num den : Nat) : Nat :=
  if num = 0 then 0
  else
    let q := max (-1074) (log2Ratio num den - 52)
    let m := nearestEven (num * twoTo (-q)) (den * twoTo q)
    min infinityBits ((q + 1074).toNat * mantissaUnit + m)

/-- The double nearest to `num / den`, which is not negative. -/
def nearest (num den : Nat) : Float :=
  Float.ofBits (UInt64.ofNat (nearestBits num den))

theorem nearestEven_near (num : Nat) {den : Nat} (h : 0 < den) :
    2 * num ≤ (2 * nearestEven num den + 1) * den ∧
      2 * nearestEven num den * den ≤ 2 * num + den := by
  have hq := Nat.div_add_mod num den
  have hr := Nat.mod_lt num h
  simp only [nearestEven]
  generalize num / den = q at *
  generalize num % den = r at *
  have e1 : 2 * q * den = 2 * (den * q) := by rw [Nat.mul_assoc, Nat.mul_comm q]
  have e2 : (2 * q + 1) * den = 2 * (den * q) + den := by rw [Nat.add_mul, e1, Nat.one_mul]
  have e3 : 2 * (q + 1) * den = 2 * (den * q) + 2 * den := by
    rw [Nat.mul_add, Nat.add_mul, e1]
  have e4 : (2 * (q + 1) + 1) * den = 2 * (den * q) + 3 * den := by
    rw [Nat.add_mul, e3, Nat.one_mul]; omega
  split
  · rw [e1, e2]; omega
  · split
    · rw [e3, e4]; omega
    · rcases Nat.mod_two_eq_zero_or_one q with hp | hp <;> rw [hp]
      · simp only [Nat.add_zero, e1, e2]; omega
      · rw [e3, e4]; omega

theorem nearestEven_even {num den : Nat} (h : 2 * (num % den) = den) :
    nearestEven num den % 2 = 0 := by
  simp only [nearestEven, h, Nat.lt_irrefl, if_false]
  omega

end Offside.Decimal
