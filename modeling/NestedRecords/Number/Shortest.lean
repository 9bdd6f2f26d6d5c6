import NestedRecords.Number

/-!
# The shortest text of a number

The text of a double has as few digits as read back to the same double, and of all such digits
those nearest to its exact value. All of this is decided in exact arithmetic: the numbers that
round to a double form an interval around it, whose ends belong to it when the mantissa is even.
On the decimal grids of one digit, two digits and so on, the first one with a point in that
interval gives the digits.

`Layout` holds what is a matter of format: up to which size digits are written out in full.
-/

namespace NestedRecords

namespace Shortest

/-- The numbers that round to a double, with the double itself, over a common denominator. -/
structure Interval where
  low : Nat
  value : Nat
  high : Nat
  denominator : Nat
  closed : Bool

/-- The interval of a positive double; below a power of two it is half as wide. -/
def intervalOf (mantissa : Nat) (exponent : Int) : Interval :=
  let lowGap := if mantissa = Nat.pow 2 52 ∧ -1074 < exponent then 1 else 2
  let scale := if 2 ≤ exponent then Nat.pow 2 (exponent - 2).natAbs else 1
  { low := (4 * mantissa - lowGap) * scale
    value := 4 * mantissa * scale
    high := (4 * mantissa + 2) * scale
    denominator := if 2 ≤ exponent then 1 else Nat.pow 2 (2 - exponent).natAbs
    closed := mantissa % 2 == 0 }

/-- The interval in units of a power of ten. -/
def Interval.inUnits (i : Interval) (exponent : Int) : Interval :=
  let power := Nat.pow 10 exponent.natAbs
  if 0 ≤ exponent then { i with denominator := i.denominator * power }
  else { i with low := i.low * power, value := i.value * power, high := i.high * power }

/-- Whether a whole number lies in an interval. -/
def Interval.holds (i : Interval) (n : Nat) : Bool :=
  if i.closed then i.low ≤ n * i.denominator && n * i.denominator ≤ i.high
  else i.low < n * i.denominator && n * i.denominator < i.high

/-- The whole number in an interval that is nearest to its value, if there is one. A tie goes to
the even number. -/
def Interval.nearest? (i : Interval) : Option Nat :=
  let below := i.value / i.denominator
  let twiceRest := 2 * (i.value % i.denominator)
  if i.holds below then
    if i.holds (below + 1) then
      if twiceRest < i.denominator ∨ twiceRest = i.denominator ∧ below % 2 = 0 then some below
      else some (below + 1)
    else some below
  else if i.holds (below + 1) then some (below + 1)
  else none

/-- The number of digits in front of the decimal point; not positive for a number below 1/10. -/
def pointOf (i : Interval) : Int :=
  if i.denominator ≤ i.value then (Nat.toDigits 10 (i.value / i.denominator)).length
  else 1 - ((List.range 400).find? fun j => i.denominator ≤ i.value * Nat.pow 10 j).getD 0

/-- Drops up to `count` trailing zeros of some digits, raising the exponent in turn. -/
def trim (digits : Nat) (exponent : Int) : Nat → Nat × Int
  | 0 => (digits, exponent)
  | count + 1 =>
    if digits % 10 = 0 then trim (digits / 10) (exponent + 1) count else (digits, exponent)

/-- The shortest digits of a positive double, and the power of ten of the last one. -/
def digits (mantissa : Nat) (exponent : Int) : Nat × Int :=
  let interval := intervalOf mantissa exponent
  let point := pointOf interval
  let grid (count : Nat) : Option (Nat × Int) :=
    ((interval.inUnits (point - (count + 1 : Nat))).nearest?).map (·, point - (count + 1 : Nat))
  match (List.range 17).findSome? grid with
  | some (n, unit) => trim n unit 17
  | none => (0, 0)

/-! ### Layout -/

/-- How the digits of a number are written. -/
structure Layout where
  /-- A number with more digits in front of the point is written with an exponent. -/
  maxPoint : Int
  /-- A number with its point so far in front of the digits is written with an exponent. -/
  minPoint : Int

/-- Numbers are written in full from a millionth up to 21 digits. -/
def layout : Layout := { maxPoint := 21, minPoint := -6 }

/-- A run of zeros; none for a negative count. -/
def zeros (count : Int) : List Char := List.replicate count.toNat '0'

/-- Digits with a decimal point behind the first one and an exponent. -/
def scientific (ds : List Char) (exponent : Int) : List Char :=
  let sign := if 0 ≤ exponent then '+' else '-'
  let fraction := if ds.length ≤ 1 then [] else '.' :: ds.drop 1
  ds.take 1 ++ fraction ++ ['e', sign] ++ Nat.toDigits 10 exponent.natAbs

/-- Digits whose decimal point stands behind the first `point` of them. -/
def positional (ds : List Char) (point : Int) : List Char :=
  if point ≤ 0 then ['0', '.'] ++ zeros (-point) ++ ds
  else if point < ds.length then ds.take point.toNat ++ ['.'] ++ ds.drop point.toNat
  else ds ++ zeros (point - ds.length)

/-- Some digits and the power of ten of the last one, written out. -/
def write (layout : Layout) (digits : Nat) (exponent : Int) : List Char :=
  let ds := Nat.toDigits 10 digits
  let point := ds.length + exponent
  if layout.minPoint < point ∧ point ≤ layout.maxPoint then positional ds point
  else scientific ds (point - 1)

end Shortest

/-- The shortest text that reads back to the same double. Zero keeps its sign. -/
def numberText (x : Float) : String :=
  match Dyadic.ofFloat? x with
  | some ⟨negative, mantissa, exponent⟩ =>
    let sign := if negative then ['-'] else []
    if mantissa = 0 then String.ofList (sign ++ ['0'])
    else
      let (digits, unit) := Shortest.digits mantissa exponent
      String.ofList (sign ++ Shortest.write Shortest.layout digits unit)
  | none => if x.isNaN then "NaN" else if x < 0 then "-Infinity" else "Infinity"

example : [0.1, 5e-324, 1e21, 123456789012345680000, 1e-6, 1e-7, 1.5e300].map numberText =
    ["0.1", "5e-324", "1e+21", "123456789012345680000", "0.000001", "1e-7", "1.5e+300"] := by
  decide +kernel

example : numberText (-0.0) = "-0" ∧ numberText (-2.5) = "-2.5" := by decide +kernel

end NestedRecords
