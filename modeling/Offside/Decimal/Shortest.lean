import Offside.Decimal.Nearest

/-!
# The fewest digits that identify a double

The reals that round to a double form an interval: from halfway to the neighbour below to halfway to
the neighbour above, its ends included exactly when the mantissa is even. Of all decimals in the
interval `shortest` takes one with the fewest digits and, of these, the nearest to the double; an
exact tie goes up.
-/

namespace Offside.Decimal

/-- A positive finite double, `mantissa * 2^exponent`. -/
structure Dyadic where
  mantissa : Nat
  exponent : Int
  /-- Is the gap to the neighbour below half of the gap to the neighbour above? -/
  narrowBelow : Bool

/-- The double with the given bits, which are those of a positive finite one. -/
def Dyadic.ofBits (bits : Nat) : Dyadic :=
  let fraction : Nat := bits % mantissaUnit
  let field : Nat := bits / mantissaUnit
  if field = 0 then ⟨fraction, -1074, false⟩
  else ⟨mantissaUnit + fraction, (field : Int) - 1075, fraction = 0 ∧ 1 < field⟩

/-- A decimal, `digits * 10^exponent`. -/
structure Scaled where
  digits : Nat
  exponent : Int

/-- A double measured on the decimal grid of step `10^s`: in units of the grid it is
`4 * mantissa * num / den`. -/
structure OnGrid where
  num : Nat
  den : Nat

/-- The factors that measure quarters of `2^x.exponent` in units of `10^s`. -/
def Dyadic.onGrid (x : Dyadic) (s : Int) : OnGrid :=
  let q := x.exponent - 2
  ⟨twoTo q * tenTo (-s), twoTo (-q) * tenTo s⟩

/-- Does the point `n` of the grid round to `x`? -/
def Dyadic.accepts (x : Dyadic) (g : OnGrid) (n : Nat) : Bool :=
  let low := (4 * x.mantissa - if x.narrowBelow then 1 else 2) * g.num
  let high := (4 * x.mantissa + 2) * g.num
  if x.mantissa % 2 = 0 then low ≤ n * g.den && n * g.den ≤ high
  else low < n * g.den && n * g.den < high

/-- The point of the grid of step `10^s` that rounds to `x`, the nearer one if both neighbours of
`x` do. -/
def Dyadic.gridPoint? (x : Dyadic) (s : Int) : Option Scaled :=
  let g := x.onGrid s
  let v := 4 * x.mantissa * g.num
  let below := v / g.den
  let above := below + 1
  let down := x.accepts g below
  let up := x.accepts g above
  if up && (!down || above * g.den - v ≤ v - below * g.den) then some ⟨above, s⟩
  else if down then some ⟨below, s⟩
  else none

/-- The number of decimal digits. -/
def digitCount (n : Nat) : Nat := (Nat.toDigits 10 n).length

/-- The least `p` with `x < 10^p`. -/
def Dyadic.magnitude (x : Dyadic) : Int :=
  let num := x.mantissa * twoTo x.exponent
  let den := twoTo (-x.exponent)
  if den ≤ num then digitCount (num / den) else 1 - digitCount ((den - 1) / num)

/-- The shortest decimal that rounds to `x`: grids are tried from coarse to fine, and seventeen
digits always suffice. -/
def Dyadic.shortest (x : Dyadic) : Scaled :=
  let p := x.magnitude
  ((List.range 17).findSome? fun k => x.gridPoint? (p - 1 - (k : Nat))).getD ⟨0, 0⟩

end Offside.Decimal
