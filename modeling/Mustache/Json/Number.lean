import Mustache.Json.Value

/-!
# The value of a JSON number

A number is read from its parts: a sign, the digits before and after the point, and an
exponent (`Literal`). A whole number of 64 bits is kept as it is. Any other number is
brought into the form `digits * 10 ^ exponent` with digits that fit into 64 bits
(`Scaled`), those that do not fit being dropped, and is then computed by one
multiplication or division (`Scaled.toFloat?`). The result may be one place off the
nearest floating-point number. A number too great to be finite has no value.
-/

namespace Mustache.Json

/-- The parts of a number. -/
structure Literal where
  negative : Bool
  /-- The digits before the point. -/
  whole : List Char
  /-- The digits after the point, if there is one. -/
  fraction : Option (List Char)
  exponent : Option Int

/-- A number in the form `digits * 10 ^ exponent`. -/
structure Scaled where
  digits : Nat
  exponent : Int
  /-- Whether a digit has been dropped, so that those after it are dropped as well. -/
  full : Bool

namespace Scaled

/-- Whether the digits still fit into 64 bits with one more. -/
def fits (s : Scaled) (digit : Char) : Bool :=
  !s.full && s.digits * 10 + Text.digitValue digit < UInt64.size

/-- Takes in a digit before the point. -/
def addWhole (s : Scaled) (digit : Char) : Scaled :=
  if s.fits digit then { s with digits := s.digits * 10 + Text.digitValue digit }
  else { s with exponent := s.exponent + 1, full := true }

/-- Takes in a digit after the point. -/
def addFraction (s : Scaled) (digit : Char) : Scaled :=
  if s.fits digit then
    { s with digits := s.digits * 10 + Text.digitValue digit, exponent := s.exponent - 1 }
  else { s with full := true }

/-- The number without its sign. After the point, digits are taken in again if they fit. -/
def ofLiteral (l : Literal) : Scaled :=
  let whole := l.whole.foldl addWhole ⟨0, 0, false⟩
  let all := (l.fraction.getD []).foldl addFraction { whole with full := false }
  { all with exponent := all.exponent + l.exponent.getD 0 }

/-- A power of ten with an exponent up to 308. -/
def power (n : Nat) : Float :=
  Float.ofScientific 1 false n

/-- The floating-point number computed for a number in this form, unless it is too
    great. Below the exponent -308 it is divided in two steps. -/
def toFloat? (s : Scaled) : Option Float :=
  let x := Float.ofNat s.digits
  if s.digits = 0 then some x
  else if 308 < s.exponent then none
  else if 0 ≤ s.exponent then
    let y := x * power s.exponent.toNat
    if y.isInf then none else some y
  else if -308 ≤ s.exponent then some (x / power (-s.exponent).toNat)
  else if -616 ≤ s.exponent then some (x / power 308 / power (-s.exponent - 308).toNat)
  else some 0.0

end Scaled

/-- The real number that the parts write. -/
def Literal.real? (l : Literal) : Option Number := do
  let x ← (Scaled.ofLiteral l).toFloat?
  let signed := if l.negative then -x else x
  if h : signed.isFinite = true then some (.real signed h) else none

/-- The number that the parts write. Whole numbers that do not fit into 64 bits, with or
    without a sign, are real, and so is a negative zero. -/
def Literal.number? (l : Literal) : Option Number :=
  if l.fraction.isSome || l.exponent.isSome then l.real?
  else
    let n := Text.ofDigits 10 l.whole
    if l.negative then
      if 0 < n ∧ (Text.int64Of? (-n)).isSome then some (.whole (-n)) else l.real?
    else if n < UInt64.size then some (.whole n)
    else l.real?

end Mustache.Json
