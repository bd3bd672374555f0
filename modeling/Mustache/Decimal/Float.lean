import Mustache.Decimal.Shortest

/-!
# Floating-point numbers as text

A floating-point number is written with the fewest digits that read back
(`Binary.shortest`), always in positional notation, and without a point if it is
whole (`Decimal.positional`). A minus sign also marks a negative zero.

In the other direction, a decimal stands for the floating-point number nearest to it
(`Decimal.toFloat`).
-/

namespace Mustache

namespace Decimal

/-- The digits of a decimal, with a point where it has a fraction. -/
def positional (d : Decimal) : List Char :=
  let digits := Nat.toDigits 10 d.digits
  if 0 ≤ d.exponent then digits ++ List.replicate d.exponent.toNat '0'
  else
    let places := (-d.exponent).toNat
    let padded := List.replicate (places + 1 - digits.length) '0' ++ digits
    let whole := padded.take (padded.length - places)
    let fraction := padded.drop (padded.length - places)
    match (fraction.reverse.dropWhile (· == '0')).reverse with
    | [] => whole
    | fraction => whole ++ '.' :: fraction

/-- Infinity. -/
def infinity : Float := 1.0 / 0.0

/-- The value that is not a number. -/
def notANumber : Float := 0.0 / 0.0

/-- The floating-point number nearest to a decimal, infinity if it is too great.
    Exponents beyond any finite number are told apart without computing the power. -/
def toFloat (d : Decimal) : Float :=
  if d.digits = 0 then 0.0
  else if 400 < d.exponent then infinity
  else if d.exponent + d.digits.log2 < -400 then 0.0
  else Float.ofScientific d.digits (d.exponent < 0) d.exponent.natAbs

end Decimal

/-- The text of a floating-point number. -/
def floatText (x : Float) : String :=
  let bits := x.toBits.toNat
  let fraction := bits % 1 <<< 52
  let exponent := bits >>> 52 % 1 <<< 11
  let sign := if bits >>> 63 = 1 then "-" else ""
  if exponent + 1 = 1 <<< 11 then
    if fraction = 0 then sign ++ "inf" else "NaN"
  else if exponent = 0 ∧ fraction = 0 then sign ++ "0"
  else sign ++ String.ofList (Binary.ofFields exponent fraction).shortest.positional

end Mustache
