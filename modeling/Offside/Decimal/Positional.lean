import Offside.Decimal.Shortest

/-!
# Numerals

Numbers are written with the fewest digits that identify them, positionally at every size: no
exponent, no point after a whole number, a zero before the point of a fraction. Reading a numeral
gives the nearest double.
-/

namespace Offside.Decimal

/-- The digits of a decimal around its point, trailing zeros of the fraction dropped. -/
def Scaled.positional (d : Scaled) : List Char :=
  let digits := Nat.toDigits 10 d.digits
  let places := (-d.exponent).toNat
  let padded := List.replicate (places + 1 - digits.length) '0' ++ digits
  let whole := padded.take (padded.length - places) ++ List.replicate d.exponent.toNat '0'
  let fraction := ((padded.drop (padded.length - places)).reverse.dropWhile (· = '0')).reverse
  if fraction.isEmpty then whole else whole ++ '.' :: fraction

/-- The text of the double with the given bits and the sign bit clear. -/
def magnitudeText (bits : Nat) : List Char :=
  if bits = 0 then ['0']
  else if bits < infinityBits then (Dyadic.ofBits bits).shortest.positional
  else if bits = infinityBits then ['i', 'n', 'f']
  else ['N', 'a', 'N']

/-- The bit that holds the sign of a double. -/
def signBit : Nat := 0x8000000000000000

/-- The text of a number. The sign of zero and of the infinities is shown, that of a NaN is not. -/
def render (x : Float) : String :=
  let bits := x.toBits.toNat
  let magnitude := bits % signBit
  let sign := if signBit ≤ bits ∧ magnitude ≤ infinityBits then ['-'] else []
  String.ofList (sign ++ magnitudeText magnitude)

/-- The value of a run of decimal digits. -/
def digitsValue (digits : List Char) : Nat :=
  digits.foldl (fun n c => 10 * n + (c.toNat - '0'.toNat)) 0

/-- Is the text a numeral: digits with at most one point among them, and at least one digit? -/
def isNumeral (text : List Char) : Bool :=
  text.all (fun c => c.isDigit || c = '.') && text.count '.' ≤ 1 && text.any Char.isDigit

/-- Reads a numeral. Any other text is refused. -/
def parse? (text : List Char) : Option Float :=
  let whole := text.takeWhile (· ≠ '.')
  let fraction := (text.dropWhile (· ≠ '.')).drop 1
  if isNumeral text then some (nearest (digitsValue (whole ++ fraction)) (tenTo fraction.length))
  else none

end Offside.Decimal
