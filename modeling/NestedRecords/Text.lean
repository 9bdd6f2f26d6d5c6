/-!
# Text in UTF-16 code units

Positions in a schema text are counted in UTF-16 code units, and a fragment may be cut at any
of them, so the text itself is a list of units rather than a `String`. `Text.ofString` and
`Text.toString` move between the two; a unit of a broken surrogate pair reads back as U+FFFD.

The main statement, `Text.toString_ofString`, says that a string survives the round trip.
-/

namespace NestedRecords

/-- One UTF-16 code unit. -/
abbrev CodeUnit := UInt16

/-- A text, measured and cut in UTF-16 code units. -/
abbrev Text := List CodeUnit

namespace CodeUnit

/-- The unit that ends a line. -/
def lineFeed : CodeUnit := 10

/-- The unit that may stand in front of a line feed. -/
def carriageReturn : CodeUnit := 13

/-- The unit of a character of the basic plane. -/
def ofChar (c : Char) : CodeUnit := UInt16.ofNat c.toNat

/-- The first half of a surrogate pair. -/
def isLead (u : CodeUnit) : Bool := 0xD800 ≤ u.toNat && u.toNat < 0xDC00

/-- The second half of a surrogate pair. -/
def isTrail (u : CodeUnit) : Bool := 0xDC00 ≤ u.toNat && u.toNat < 0xE000

/-- The character of a unit that is not part of a pair. -/
def alone (u : CodeUnit) : Char :=
  if u.isLead || u.isTrail then '\uFFFD' else Char.ofNat u.toNat

/-- The character of a surrogate pair. -/
def paired (u v : CodeUnit) : Char :=
  Char.ofNat (0x10000 + (u.toNat - 0xD800) * 0x400 + (v.toNat - 0xDC00))

end CodeUnit

namespace Text

open CodeUnit

/-! ### Strings and texts -/

/-- The one or two units of a character. -/
def encodeChar (c : Char) : Text :=
  if c.toNat < 0x10000 then
    [UInt16.ofNat c.toNat]
  else
    [UInt16.ofNat (0xD800 + (c.toNat - 0x10000) / 0x400),
      UInt16.ofNat (0xDC00 + (c.toNat - 0x10000) % 0x400)]

/-- The units of a string. -/
def ofString (s : String) : Text := s.toList.flatMap encodeChar

/-- The characters of a text. -/
def toChars : Text → List Char
  | [] => []
  | [u] => [u.alone]
  | u :: v :: rest =>
    if u.isLead && v.isTrail then u.paired v :: toChars rest
    else u.alone :: toChars (v :: rest)

/-- The string of a text. -/
def toString (t : Text) : String := String.ofList t.toChars

theorem toChars_pair {u v : CodeUnit} (hu : u.isLead) (hv : v.isTrail) (rest : Text) :
    toChars (u :: v :: rest) = u.paired v :: toChars rest := by
  simp [toChars, hu, hv]

theorem toChars_alone {u : CodeUnit} (hu : u.isLead = false) (rest : Text) :
    toChars (u :: rest) = u.alone :: toChars rest := by
  cases rest <;> simp [toChars, hu]

private theorem isLead_iff {u : CodeUnit} :
    u.isLead = true ↔ 0xD800 ≤ u.toNat ∧ u.toNat < 0xDC00 := by
  simp [isLead]

private theorem isTrail_iff {u : CodeUnit} :
    u.isTrail = true ↔ 0xDC00 ≤ u.toNat ∧ u.toNat < 0xE000 := by
  simp [isTrail]

/-- A character reads back from its units, whatever follows. -/
theorem toChars_encodeChar_append (c : Char) (rest : Text) :
    toChars (encodeChar c ++ rest) = c :: toChars rest := by
  have hvalid : c.toNat < 0xD800 ∨ 0xDFFF < c.toNat ∧ c.toNat < 0x110000 := c.valid
  have hself : Char.ofNat c.toNat = c := Char.ofNat_toNat c
  unfold encodeChar
  split
  · have hunit : (UInt16.ofNat c.toNat).toNat = c.toNat := by
      rw [UInt16.toNat_ofNat']; omega
    generalize UInt16.ofNat c.toNat = u at hunit
    have hlead : isLead u = false := by
      rw [Bool.eq_false_iff, ne_eq, isLead_iff]; omega
    have htrail : isTrail u = false := by
      rw [Bool.eq_false_iff, ne_eq, isTrail_iff]; omega
    rw [List.singleton_append, toChars_alone hlead]
    simp [alone, hlead, htrail, hunit, hself]
  · have hu : (UInt16.ofNat (0xD800 + (c.toNat - 0x10000) / 0x400)).toNat =
        0xD800 + (c.toNat - 0x10000) / 0x400 := by
      rw [UInt16.toNat_ofNat']; omega
    have hv : (UInt16.ofNat (0xDC00 + (c.toNat - 0x10000) % 0x400)).toNat =
        0xDC00 + (c.toNat - 0x10000) % 0x400 := by
      rw [UInt16.toNat_ofNat']; omega
    generalize UInt16.ofNat (0xD800 + (c.toNat - 0x10000) / 0x400) = u at hu ⊢
    generalize UInt16.ofNat (0xDC00 + (c.toNat - 0x10000) % 0x400) = v at hv ⊢
    have hpair : 0x10000 + (u.toNat - 0xD800) * 0x400 + (v.toNat - 0xDC00) = c.toNat := by omega
    rw [List.cons_append, List.singleton_append,
      toChars_pair (isLead_iff.2 (by omega)) (isTrail_iff.2 (by omega)), paired, hpair, hself]

theorem toChars_flatMap_encodeChar (cs : List Char) :
    toChars (cs.flatMap encodeChar) = cs := by
  induction cs with
  | nil => rfl
  | cons c cs ih => rw [List.flatMap_cons, toChars_encodeChar_append, ih]

/-- A string reads back from its units. -/
@[simp]
theorem toString_ofString (s : String) : toString (ofString s) = s := by
  rw [toString, ofString, toChars_flatMap_encodeChar, String.ofList_toList]

/-! ### Lines -/

/-- The text with every carriage return that stands before a line feed dropped. -/
def unifyLineEndings : Text → Text
  | [] => []
  | u :: rest =>
    if u = carriageReturn ∧ rest.head? = some lineFeed then unifyLineEndings rest
    else u :: unifyLineEndings rest

/-- The pieces between line feeds; a text always has at least one. -/
def lines (t : Text) : List Text := t.splitOn lineFeed

/-- The text up to its first line feed. -/
def firstLine (t : Text) : Text := t.takeWhile (· ≠ lineFeed)

/-! ### Searching -/

/-- Where `needle` first occurs in a text. -/
def indexOf? (needle : Text) : Text → Option Nat
  | [] => if needle.isEmpty then some 0 else none
  | u :: rest =>
    if needle.isPrefixOf (u :: rest) then some 0 else (indexOf? needle rest).map (· + 1)

end Text

end NestedRecords
