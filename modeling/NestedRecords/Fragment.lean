import NestedRecords.Text

/-!
# Fragments of source text

A `Fragment` is a piece of schema text that knows where it starts, so that a token or an error
can point back at the text it was cut from. Positions are integers because a fragment may be
given any base position, and they move through the text one code unit at a time: a line feed
starts the next row at column 1, any other unit takes one column.

Cuts clamp their bounds to the text, so `Fragment.slice` is defined for all bounds. The small
lemmas say that a cut's own bookkeeping agrees with walking through the whole text.
-/

namespace NestedRecords

/-- A place in a source text: units passed, row and column. -/
structure Position where
  offset : Int
  row : Int
  column : Int
  deriving DecidableEq, Repr

namespace Position

/-- The start of a source text. -/
def origin : Position := ⟨0, 1, 1⟩

/-- The place behind one unit. -/
def step (p : Position) (u : CodeUnit) : Position :=
  if u = CodeUnit.lineFeed then ⟨p.offset + 1, p.row + 1, 1⟩
  else ⟨p.offset + 1, p.row, p.column + 1⟩

/-- The place behind a text. -/
def after (p : Position) (t : Text) : Position := t.foldl step p

@[simp]
theorem after_nil (p : Position) : p.after [] = p := rfl

@[simp]
theorem after_cons (p : Position) (u : CodeUnit) (t : Text) :
    p.after (u :: t) = (p.step u).after t := rfl

theorem after_append (p : Position) (s t : Text) : p.after (s ++ t) = (p.after s).after t :=
  List.foldl_append

@[simp]
theorem offset_step (p : Position) (u : CodeUnit) : (p.step u).offset = p.offset + 1 := by
  unfold step; split <;> rfl

@[simp]
theorem offset_after (p : Position) (t : Text) : (p.after t).offset = p.offset + t.length := by
  induction t generalizing p with
  | nil => simp
  | cons u t ih => rw [after_cons, ih, offset_step, List.length_cons]; omega

end Position

/-- A piece of source text and the place where it starts. -/
structure Fragment where
  text : Text
  start : Position := .origin
  deriving DecidableEq, Repr

namespace Fragment

/-- A whole source text, with its line endings unified. -/
def ofSource (source : Text) : Fragment := { text := source.unifyLineEndings }

/-- The string that a fragment holds. -/
def toString (f : Fragment) : String := f.text.toString

/-- The place `count` units into a fragment; a count outside it stops at its nearer end. -/
def advance (f : Fragment) (count : Int) : Position := f.start.after (f.text.take count.toNat)

/-- The fragment without its first `count` units. -/
def drop (f : Fragment) (count : Nat) : Fragment :=
  ⟨f.text.drop count, f.start.after (f.text.take count)⟩

/-- The first `count` units of a fragment. -/
def take (f : Fragment) (count : Nat) : Fragment := ⟨f.text.take count, f.start⟩

/--
The units between two bounds. Both are clamped to the fragment, the end also from below by the
start; an absent end is the end of the fragment.
-/
def slice (f : Fragment) (first : Int := 0) (last : Option Int := none) : Fragment :=
  let size := f.text.length
  let low := min first.toNat size
  let high := match last with
    | some bound => max low (min bound.toNat size)
    | none => size
  (f.drop low).take (high - low)

@[simp]
theorem start_drop (f : Fragment) (count : Nat) : (f.drop count).start = f.advance count := rfl

@[simp]
theorem text_drop (f : Fragment) (count : Nat) : (f.drop count).text = f.text.drop count := rfl

/-- Cutting twice from the front is cutting once. -/
theorem drop_drop (f : Fragment) (m n : Nat) : (f.drop m).drop n = f.drop (m + n) := by
  simp only [drop, List.drop_drop, List.take_add, Position.after_append]

/-! ### Runs -/

/-- The longest run of units of a class at the start of a fragment. -/
def takeWhile (p : CodeUnit → Bool) (f : Fragment) : Fragment := ⟨f.text.takeWhile p, f.start⟩

/-- What follows the longest run of units of a class. -/
def dropWhile (p : CodeUnit → Bool) (f : Fragment) : Fragment :=
  ⟨f.text.dropWhile p, f.start.after (f.text.takeWhile p)⟩

/-- A run and what follows it make up the fragment. -/
theorem text_takeWhile_append_dropWhile (p : CodeUnit → Bool) (f : Fragment) :
    (f.takeWhile p).text ++ (f.dropWhile p).text = f.text :=
  List.takeWhile_append_dropWhile

private theorem take_length_takeWhile (p : CodeUnit → Bool) (t : Text) :
    t.take (t.takeWhile p).length = t.takeWhile p := by
  induction t with
  | nil => rfl
  | cons u t ih => by_cases h : p u <;> simp [h, ih]

private theorem drop_length_takeWhile (p : CodeUnit → Bool) (t : Text) :
    t.drop (t.takeWhile p).length = t.dropWhile p := by
  induction t with
  | nil => rfl
  | cons u t ih => by_cases h : p u <;> simp [h, ih]

/-- Dropping a run is dropping as many units as it has. -/
theorem dropWhile_eq_drop (p : CodeUnit → Bool) (f : Fragment) :
    f.dropWhile p = f.drop (f.takeWhile p).text.length := by
  rw [dropWhile, drop, takeWhile, take_length_takeWhile, drop_length_takeWhile]

theorem length_dropWhile_le (p : CodeUnit → Bool) (f : Fragment) :
    (f.dropWhile p).text.length ≤ f.text.length := by
  rw [dropWhile]
  exact (List.dropWhile_sublist p).length_le

end Fragment

end NestedRecords
