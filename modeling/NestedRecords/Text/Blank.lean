import NestedRecords.Text

/-!
# White space

Between tokens, and on the blank lines of a record file, the white space of the Unicode
standard counts, together with the byte order mark. All of it lies in the basic plane, so
membership is decided on one code unit.
-/

namespace NestedRecords

/-- The code points of white space, as ranges with both ends included. -/
def blankRanges : List (Nat × Nat) :=
  [(0x09, 0x0D), (0x20, 0x20), (0xA0, 0xA0), (0x1680, 0x1680), (0x2000, 0x200A),
    (0x2028, 0x2029), (0x202F, 0x202F), (0x205F, 0x205F), (0x3000, 0x3000), (0xFEFF, 0xFEFF)]

namespace CodeUnit

/-- Whether a unit is white space. -/
def isBlank (u : CodeUnit) : Bool :=
  blankRanges.any fun range => range.1 ≤ u.toNat && u.toNat ≤ range.2

/-- The white space of ASCII text is white space. -/
theorem isBlank_ofChar_of_isWhitespace {c : Char} (h : c.isWhitespace = true) :
    isBlank (ofChar c) = true := by
  simp only [Char.isWhitespace, Bool.or_eq_true, decide_eq_true_eq] at h
  rcases h with ((rfl | rfl) | rfl) | rfl <;> decide

end CodeUnit

/-- Whether a text holds nothing but white space. -/
def Text.isBlank (t : Text) : Bool := t.all CodeUnit.isBlank

end NestedRecords
