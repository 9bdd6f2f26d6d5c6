import NestedRecords.Proofs.Schema.Drawing
import NestedRecords.Proofs.Text.Lines

/-!
# The place of an issue

A fragment finds the row and the column of a place by walking through the text in front of it. An
issue finds its line and its column by counting line feeds and searching for the last of them, and
cuts the text of its line out of the source.

Both come to the same (`Issue.locate_agrees`), with one exception: at the very start of a text that
begins with a line feed an issue has no column, since its line is taken to begin behind that line
feed.
-/

namespace NestedRecords

open CodeUnit

namespace Issue

variable {source : Text} {start : Nat}

/-- Unless it is the exception, the line of an issue begins behind the last line feed in front of
it. -/
theorem lineStart_add_length (hstart : start ≤ source.length)
    (h : ¬(start = 0 ∧ source.head? = some lineFeed)) :
    lineStart source start + (Text.lastLine (source.take start)).length = start := by
  rcases Nat.eq_zero_or_pos start with rfl | hpos
  · cases source with
    | nil => rfl
    | cons u rest =>
      have hu : u ≠ lineFeed := fun hu => h ⟨rfl, congrArg some hu⟩
      simp [lineStart, hu]
  · have hle : (Text.lastLine (source.take start)).length ≤ start := by
      have hsuffix := (Text.lastLine_suffix (source.take start)).length_le
      rwa [List.length_take, Nat.min_eq_left hstart] at hsuffix
    have hbegin : lineStart source start = start - (Text.lastLine (source.take start)).length := by
      rw [lineStart, Nat.max_eq_left hpos, Text.lastLine, List.length_reverse, List.length_take,
        Nat.min_eq_left hstart]
    omega

/-- The text of the line of an issue is the line of its place. -/
theorem lineText_locate (source : Text) (offset : Int) :
    (locate source offset).lineText =
      Text.lastLine (source.take (locate source offset).start) ++
        Text.firstLine (source.drop (locate source offset).start) := by
  simp only [locate]
  generalize hmin : min offset.toNat source.length = start
  have hstart : start ≤ source.length := hmin ▸ Nat.min_le_right _ _
  have hend : source.take (lineEnd source start) =
      source.take start ++ Text.firstLine (source.drop start) := by
    rw [lineEnd, List.take_add]
    exact congrArg _ (List.prefix_iff_eq_take.mp (List.takeWhile_prefix _)).symm
  by_cases h : start = 0 ∧ source.head? = some lineFeed
  · obtain ⟨rfl, hhead⟩ := h
    obtain ⟨rest, rfl⟩ := List.head?_eq_some_iff.mp hhead
    simp [lineEnd, Text.firstLine]
  · have hsplit := lineStart_add_length hstart h
    have hlength : (source.take start).length = start := List.length_take_of_le hstart
    have hlast := List.suffix_iff_eq_drop.mp (Text.lastLine_suffix (source.take start))
    have hdrop : lineStart source start =
        (source.take start).length - (Text.lastLine (source.take start)).length := by omega
    rw [hend, List.drop_append_of_le_length (by omega), hdrop, ← hlast]

/-- The column of an issue counts the units behind the last line feed in front of it. -/
theorem column_locate_eq_length {source : Text} {offset : Int}
    (h : ¬(offset ≤ 0 ∧ source.head? = some lineFeed)) :
    (locate source offset).column =
      (Text.lastLine (source.take (locate source offset).start)).length + 1 := by
  have hnot : ¬((locate source offset).start = 0 ∧ source.head? = some lineFeed) := by
    rintro ⟨hzero, hhead⟩
    obtain ⟨rest, rfl⟩ := List.head?_eq_some_iff.mp hhead
    simp only [locate, List.length_cons] at hzero
    exact h ⟨by omega, hhead⟩
  have hsplit := lineStart_add_length (Nat.min_le_right _ _) hnot
  simp only [locate] at hsplit ⊢
  omega

/-! ### Walking to the place -/

theorem advance_eq (source : Text) (offset : Int) :
    Fragment.advance { text := source } offset =
      Position.origin.after (source.take (locate source offset).start) :=
  congrArg Position.origin.after List.take_eq_take_min

theorem line_locate (source : Text) (offset : Int) :
    ((locate source offset).line : Int) = (Fragment.advance { text := source } offset).row := by
  have hline : (locate source offset).line =
      (source.take (locate source offset).start).count lineFeed + 1 := rfl
  have hrow : Position.origin.row = 1 := rfl
  rw [advance_eq, Position.row_after]
  omega

theorem column_locate {offset : Int} (h : ¬(offset ≤ 0 ∧ source.head? = some lineFeed)) :
    ((locate source offset).column : Int) =
      (Fragment.advance { text := source } offset).column := by
  rw [advance_eq, Position.column_origin_after, column_locate_eq_length h]
  rfl

/-- The text of the line of an issue is a line of the source. -/
theorem getElem?_lines_locate (source : Text) (offset : Int) :
    source.lines[(locate source offset).line - 1]? = some (locate source offset).lineText := by
  have hline := Text.getElem?_lines_append (source.take (locate source offset).start)
    (source.drop (locate source offset).start)
  rw [List.take_append_drop, ← lineText_locate] at hline
  exact hline

/-- **Two ways to a place.** The line, the column and the text of the line of an issue are those of
the place that is reached by walking, but an issue at the start of a text that begins with a line
feed has another column. -/
theorem locate_agrees (source : Text) (offset : Int) :
    let issue := locate source offset
    let place := Fragment.advance { text := source } offset
    (issue.line : Int) = place.row ∧ source.lines[issue.line - 1]? = some issue.lineText ∧
      ((issue.column : Int) = place.column ↔ ¬(offset ≤ 0 ∧ source.head? = some lineFeed)) := by
  intro issue place
  refine ⟨line_locate source offset, getElem?_lines_locate source offset, fun hcolumn hstart => ?_,
    column_locate⟩
  have hplace : place.column =
      (Text.lastLine (source.take (locate source offset).start)).length + 1 := by
    rw [← Position.column_origin_after, ← advance_eq]
  rw [hplace, column_locate_eq_zero_iff.mpr hstart] at hcolumn
  omega

/-- At the start of such a text the issue has no column, and walking gives the first one. -/
theorem locate_agrees_fails :
    (locate [lineFeed] 0).column = 0 ∧ (Fragment.advance { text := [lineFeed] } 0).column = 1 := by
  decide

end Issue

end NestedRecords
