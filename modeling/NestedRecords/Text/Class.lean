import NestedRecords.Text.Blank

/-!
# Classes of units in a schema text

Words, brackets, and what may stand between tokens or inside an entry. The classes of words,
brackets and fillers are disjoint, so the first unit of a text decides what is read there.
-/

namespace NestedRecords

namespace CodeUnit

/-- The units of names: the letters and digits of ASCII and the underscore. -/
def isWord (u : CodeUnit) : Bool :=
  (48 ≤ u.toNat && u.toNat ≤ 57) || (65 ≤ u.toNat && u.toNat ≤ 90) || u.toNat == 95 ||
    (97 ≤ u.toNat && u.toNat ≤ 122)

/-- The opening brackets. -/
def isOpening (u : CodeUnit) : Bool := ['(', '[', '{', '<'].any (ofChar · == u)

/-- The closing brackets. -/
def isClosing (u : CodeUnit) : Bool := [')', ']', '}', '>'].any (ofChar · == u)

/-- What may stand between tokens. -/
def isFiller (u : CodeUnit) : Bool := u == ofChar ',' || u.isBlank

/-- What may stand around the marks inside an entry. -/
def isGap (u : CodeUnit) : Bool := u == ofChar ' ' || u == ofChar '\t'

/-- What ends the span of an issue: a bracket or the end of the line. -/
def isSpanEnd (u : CodeUnit) : Bool := u.isOpening || u.isClosing || u == lineFeed

end CodeUnit

end NestedRecords
