import NestedRecords.Assoc
import NestedRecords.Number.Decimal
import NestedRecords.Text
import NestedRecords.Value
import NestedRecords.Value.MemberOrder

/-!
# Reading json

`Value.ofChars?` reads exactly one json document and nothing else around it but json's own four
kinds of white space. A name that occurs twice in an object keeps its first place and takes its
last value, and the members are then brought into their order.

String literals are read in UTF-16 code units, of which an escape `\uXXXX` spells one; so two
escapes may spell the two halves of one character.
-/

namespace NestedRecords

namespace Json

/-! ### Strings -/

/-- The white space of json. -/
def isSpace (c : Char) : Bool := c == ' ' || c == '\t' || c == '\n' || c == '\r'

/-- The text behind the white space at its start. -/
def skipSpace (cs : List Char) : List Char := cs.dropWhile isSpace

/-- The value of a hexadecimal digit. -/
def hexDigit? (c : Char) : Option Nat :=
  if c.isDigit then some (c.toNat - '0'.toNat)
  else if 'a' ≤ c ∧ c ≤ 'f' then some (c.toNat - 'a'.toNat + 10)
  else if 'A' ≤ c ∧ c ≤ 'F' then some (c.toNat - 'A'.toNat + 10)
  else none

/-- The unit that four hexadecimal digits spell. -/
def hexUnit? (a b c d : Char) : Option CodeUnit := do
  return UInt16.ofNat (((← hexDigit? a) * 16 + (← hexDigit? b)) * 256 +
    ((← hexDigit? c) * 16 + (← hexDigit? d)))

/-- The character that a backslash and another character spell. -/
def escaped? (c : Char) : Option Char :=
  [('"', '"'), ('\\', '\\'), ('/', '/'), ('b', '\x08'), ('f', '\x0c'), ('n', '\n'), ('r', '\r'),
    ('t', '\t')].lookup c

/-- The units of a string literal whose opening quote has been read, and what follows it. -/
def stringBody : List Char → Option (Text × List Char)
  | [] => none
  | '"' :: rest => some ([], rest)
  | '\\' :: 'u' :: a :: b :: c :: d :: rest => do
    let unit ← hexUnit? a b c d
    let (units, rest) ← stringBody rest
    return (unit :: units, rest)
  | '\\' :: c :: rest => do
    let char ← escaped? c
    let (units, rest) ← stringBody rest
    return (CodeUnit.ofChar char :: units, rest)
  | c :: rest =>
    if c.toNat < 0x20 ∨ c = '\\' then none
    else do
      let (units, rest) ← stringBody rest
      return (Text.encodeChar c ++ units, rest)

/-! ### Numbers -/

/-- The digits at the start of a text, of which there has to be one, and what follows them. -/
def digits? (cs : List Char) : Option (List Char × List Char) :=
  if (cs.takeWhile Char.isDigit).isEmpty then none
  else some (cs.takeWhile Char.isDigit, cs.dropWhile Char.isDigit)

/-- The digits in front of the decimal point; a zero stands alone. -/
def whole? : List Char → Option (List Char × List Char)
  | '0' :: rest => some (['0'], rest)
  | cs => digits? cs

/-- The digits behind the decimal point, if there is one. -/
def fraction? : List Char → Option (List Char × List Char)
  | '.' :: rest => digits? rest
  | cs => some ([], cs)

/-- The digits of an exponent with their sign. -/
def exponentDigits? : List Char → Option (Int × List Char)
  | '-' :: rest => (digits? rest).map fun (ds, rest) => (-(MemberOrder.digitsValue ds : Int), rest)
  | '+' :: rest => (digits? rest).map fun (ds, rest) => (MemberOrder.digitsValue ds, rest)
  | cs => (digits? cs).map fun (ds, rest) => (MemberOrder.digitsValue ds, rest)

/-- The exponent of a number, if there is one. -/
def exponent? : List Char → Option (Int × List Char)
  | 'e' :: rest => exponentDigits? rest
  | 'E' :: rest => exponentDigits? rest
  | cs => some (0, cs)

/-- The sign of a number. -/
def sign : List Char → Bool × List Char
  | '-' :: rest => (true, rest)
  | cs => (false, cs)

/-- The number at the start of a text and what follows it. -/
def number? (cs : List Char) : Option (Float × List Char) := do
  let (negative, cs) := sign cs
  let (ones, cs) ← whole? cs
  let (places, cs) ← fraction? cs
  let (exponent, cs) ← exponent? cs
  let decimal : Decimal :=
    { negative
      mantissa := MemberOrder.digitsValue (ones ++ places)
      exponent := exponent - places.length }
  return (decimal.toFloat, cs)

/-! ### Values -/

/-- The object with some members in the order in which they are written. -/
def objectOf (written : List (String × Value)) : Value :=
  .object (MemberOrder.arrangeBy Prod.fst (Assoc.ofList written))

mutual

/-- The value at the start of a text and what follows it; `fuel` bounds the nesting and width. -/
def value? (fuel : Nat) (cs : List Char) : Option (Value × List Char) :=
  match fuel with
  | 0 => none
  | fuel + 1 =>
    match skipSpace cs with
    | 'n' :: 'u' :: 'l' :: 'l' :: rest => some (.null, rest)
    | 't' :: 'r' :: 'u' :: 'e' :: rest => some (.bool true, rest)
    | 'f' :: 'a' :: 'l' :: 's' :: 'e' :: rest => some (.bool false, rest)
    | '"' :: rest => (stringBody rest).map fun (units, rest) => (.string units.toString, rest)
    | '[' :: rest =>
      match skipSpace rest with
      | ']' :: rest => some (.array [], rest)
      | rest => (items? fuel rest).map fun (items, rest) => (.array items, rest)
    | '{' :: rest =>
      match skipSpace rest with
      | '}' :: rest => some (.object [], rest)
      | rest => (members? fuel rest).map fun (members, rest) => (objectOf members, rest)
    | rest => (number? rest).map fun (x, rest) => (.number x, rest)

/-- The items of an array up to its closing bracket, and what follows it. -/
def items? (fuel : Nat) (cs : List Char) : Option (List Value × List Char) :=
  match fuel with
  | 0 => none
  | fuel + 1 => do
    let (item, rest) ← value? fuel cs
    match skipSpace rest with
    | ',' :: rest =>
      let (items, rest) ← items? fuel rest
      return (item :: items, rest)
    | ']' :: rest => return ([item], rest)
    | _ => none

/-- The members of an object up to its closing brace, and what follows it. -/
def members? (fuel : Nat) (cs : List Char) : Option (List (String × Value) × List Char) :=
  match fuel with
  | 0 => none
  | fuel + 1 =>
    match skipSpace cs with
    | '"' :: rest => do
      let (name, rest) ← stringBody rest
      match skipSpace rest with
      | ':' :: rest =>
        let (value, rest) ← value? fuel rest
        match skipSpace rest with
        | ',' :: rest =>
          let (members, rest) ← members? fuel rest
          return ((name.toString, value) :: members, rest)
        | '}' :: rest => return ([(name.toString, value)], rest)
        | _ => none
      | _ => none
    | _ => none

end

end Json

namespace Value

/--
The value of a json document. Every second step of the reader takes a character, so twice the
length of the document is fuel enough.
-/
def ofChars? (cs : List Char) : Option Value := do
  let (value, rest) ← Json.value? (2 * cs.length + 1) cs
  if (Json.skipSpace rest).isEmpty then return value else none

/-- The value of a json document given as a text. -/
def ofText? (t : Text) : Option Value := ofChars? t.toChars

/-- The value of a json document given as a string. -/
def ofString? (s : String) : Option Value := ofChars? s.toList

example : ofString? "\x7b\"b\": [1, 2.5e3], \"1\": null, \"b\": \"\\ud83d\\ude00\"\x7d" =
    some (object [("1", null), ("b", string "😀")]) := by
  decide +kernel

end Value

end NestedRecords
