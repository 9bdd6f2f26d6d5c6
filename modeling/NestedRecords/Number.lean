/-!
# Doubles as exact numbers

A finite double is a natural number times a power of two, up to its sign. `Dyadic.ofFloat?`
reads these parts off the bits, so that whatever is asked of a number afterwards is answered in
exact arithmetic.
-/

namespace NestedRecords

/-- A natural number times a power of two, with a sign. -/
structure Dyadic where
  negative : Bool
  mantissa : Nat
  exponent : Int
  deriving DecidableEq, Repr

namespace Dyadic

/-- The exact value of a finite double. -/
def ofFloat? (x : Float) : Option Dyadic :=
  let bits : Nat := x.toBits.toNat
  let negative := bits / Nat.pow 2 63 == 1
  let biased : Nat := bits / Nat.pow 2 52 % Nat.pow 2 11
  let fraction := bits % Nat.pow 2 52
  if biased = 2047 then none
  else if biased = 0 then some ⟨negative, fraction, -1074⟩
  else some ⟨negative, Nat.pow 2 52 + fraction, (biased : Int) - 1075⟩

/-- The magnitude of a dyadic number that is whole. -/
def natAbs? (d : Dyadic) : Option Nat :=
  let scale := Nat.pow 2 d.exponent.natAbs
  if 0 ≤ d.exponent then some (d.mantissa * scale)
  else if d.mantissa % scale = 0 then some (d.mantissa / scale)
  else none

/-- The value of a dyadic number that is whole. -/
def toInt? (d : Dyadic) : Option Int :=
  d.natAbs?.map fun n => if d.negative then -(n : Int) else n

end Dyadic

/-- Whether a double is a whole number; an infinite one is not. -/
def isWhole (x : Float) : Bool := ((Dyadic.ofFloat? x).bind Dyadic.natAbs?).isSome

end NestedRecords
