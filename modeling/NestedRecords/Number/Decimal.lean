/-!
# Decimal numbers

A decimal literal denotes an exact number, and its value is the nearest double. Exponents far
outside the range of doubles are cut off beforehand, so that no huge power is ever computed.
-/

namespace NestedRecords

/-- A natural number times a power of ten, with a sign. -/
structure Decimal where
  negative : Bool
  mantissa : Nat
  exponent : Int
  deriving DecidableEq, Repr

namespace Decimal

/-- Every number of at least ten to this power exceeds the doubles, and its inverse rounds to 0. -/
def range : Int := 400

/-- The double nearest to the magnitude of a decimal number. -/
def magnitude (d : Decimal) : Float :=
  let places := (Nat.toDigits 10 d.mantissa).length + d.exponent
  if d.mantissa = 0 ∨ places < -range then 0
  else if range < places then Float.ofBits 0x7FF0000000000000
  else Float.ofScientific d.mantissa (d.exponent < 0) d.exponent.natAbs

/-- The double nearest to a decimal number; zero keeps its sign. -/
def toFloat (d : Decimal) : Float := if d.negative then -d.magnitude else d.magnitude

end Decimal

end NestedRecords
