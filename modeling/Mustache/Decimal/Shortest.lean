/-!
# The shortest decimal that reads back

A *binary* value is a natural number times a power of two. Among the decimals that
are nearer to it than to any other binary value, `Binary.shortest` picks one with the
fewest digits, and of these the nearest to the value; of two equally near, the
greater.

All of this is decided in natural numbers. A decimal with the exponent `p` is a
multiple of `10 ^ p`, so the only candidates with that exponent are the two
multiples around the value (`Binary.candidate?`); the exponents are tried from the
greatest down.
-/

namespace Mustache

/-- A number in decimal notation: `digits * 10 ^ exponent`. -/
structure Decimal where
  digits : Nat
  exponent : Int
deriving DecidableEq, Repr

/-- A finite binary value that is not negative: `mantissa * 2 ^ exponent`. -/
structure Binary where
  mantissa : Nat
  exponent : Int
  /-- Whether the next value below is only half as far away as the next above, as it
      is below a power of two. -/
  narrowBelow : Bool
deriving DecidableEq, Repr

namespace Binary

/-- The binary value with the given bits for its exponent and its fraction. -/
def ofFields (exponent fraction : Nat) : Binary :=
  if exponent = 0 then ⟨fraction, -1074, false⟩
  else ⟨1 <<< 52 + fraction, exponent - 1075, fraction == 0 && exponent > 1⟩

/-- A quarter of the distance to the next value above, over `10 ^ p`, as a fraction. -/
def quarter (x : Binary) (p : Int) : Nat × Nat :=
  (Nat.pow 10 (-p).toNat <<< (x.exponent - 2).toNat,
    Nat.pow 10 p.toNat <<< (2 - x.exponent).toNat)

/-- Whether a multiple `n` of `10 ^ p` reads back as the value: whether it lies between
    the midpoints to the next values below and above. The midpoints themselves read
    back as the value with the even mantissa. -/
def readsBack (x : Binary) (p : Int) (n : Nat) : Bool :=
  let (num, den) := x.quarter p
  let below := (4 * x.mantissa - if x.narrowBelow then 1 else 2) * num
  let above := (4 * x.mantissa + 2) * num
  if x.mantissa % 2 = 0 then below ≤ n * den && n * den ≤ above
  else below < n * den && n * den < above

/-- The multiple of `10 ^ p` nearest to the value among those that read back. -/
def candidate? (x : Binary) (p : Int) : Option Decimal :=
  let (num, den) := x.quarter p
  let floor := 4 * x.mantissa * num / den
  let nearer := if 2 * (4 * x.mantissa * num) < (2 * floor + 1) * den then floor else floor + 1
  let farther := if nearer = floor then floor + 1 else floor
  if floor = 0 then none
  else if x.readsBack p nearer then some ⟨nearer, p⟩
  else if x.readsBack p farther then some ⟨farther, p⟩
  else none

/-- The value itself in decimal notation. -/
def exact (x : Binary) : Decimal :=
  if 0 ≤ x.exponent then ⟨x.mantissa <<< x.exponent.toNat, 0⟩
  else ⟨x.mantissa * Nat.pow 5 (-x.exponent).toNat, x.exponent⟩

/-- An exponent that is not below that of the leading digit of the value. -/
def topExponent (x : Binary) : Int :=
  (x.mantissa.log2 + x.exponent) * 30103 / 100000 + 2

/-- The nearest of the shortest decimals that read back as the value. Seventeen digits
    always suffice; the first exponents tried may lie above the leading digit. -/
def shortest (x : Binary) : Decimal :=
  ((List.range 21).findSome? fun (i : Nat) => x.candidate? (x.topExponent - i)).getD x.exact

end Binary

end Mustache
