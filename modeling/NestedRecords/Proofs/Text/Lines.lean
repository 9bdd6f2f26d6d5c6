import Mathlib.Data.List.Induction
import NestedRecords.Fragment

/-!
# Lines and places

A place in a text is given by a row and a column, and what these count depends only on the text in
front of it: the line feeds there, and the units behind the last of them. So most statements here
are about a text that grows at its end, by one unit at a time. Two equations carry them. At a line
feed the lines of a text come apart (`Text.lines_append_lineFeed`), and any other unit makes the
first line of what follows it longer (`Text.lines_cons_of_ne`).

The line that a place stands on begins in the text in front of it and ends in the text behind it
(`Text.getElem?_lines_append`).
-/

namespace NestedRecords

open CodeUnit

namespace Text

/-! ### Lines of a text -/

/-- The lines of a text come apart at a line feed. -/
theorem lines_append_lineFeed (s t : Text) :
    lines (s ++ lineFeed :: t) = lines s ++ lines t :=
  List.splitOnP_append_cons s t (beq_self_eq_true lineFeed)

/-- At a line feed in front there is an empty line. -/
theorem lines_lineFeed_cons (t : Text) : lines (lineFeed :: t) = [] :: lines t :=
  lines_append_lineFeed [] t

theorem lines_cons_of_ne {u : CodeUnit} (hu : u ≠ lineFeed) (t : Text) :
    lines (u :: t) = (lines t).modifyHead (List.cons u) := by
  rw [lines, List.splitOn, List.splitOnP_cons_eq_if_modifyHead, if_neg (by simpa using hu)]
  rfl

/-- There is one line more than there are line feeds. -/
theorem length_lines (t : Text) : t.lines.length = t.count lineFeed + 1 := by
  induction t with
  | nil => rfl
  | cons u t ih =>
    by_cases hu : u = lineFeed
    · rw [hu, lines_lineFeed_cons, List.length_cons, ih, List.count_cons_self]
    · rw [lines_cons_of_ne hu, List.length_modifyHead, ih, List.count_cons_of_ne hu]

/-- The first line is what stands in front of the first line feed. -/
theorem head?_lines (t : Text) : t.lines.head? = some t.firstLine := by
  induction t with
  | nil => rfl
  | cons u t ih =>
    by_cases hu : u = lineFeed
    · rw [hu, lines_lineFeed_cons]
      rfl
    · rw [lines_cons_of_ne hu, List.head?_modifyHead, ih, Option.map_some, firstLine, firstLine,
        List.takeWhile_cons_of_pos (by simpa using hu)]

theorem lineFeed_notMem_of_mem_lines {t line : Text} (h : line ∈ t.lines) : lineFeed ∉ line := by
  induction t generalizing line with
  | nil =>
    obtain rfl := List.mem_singleton.mp h
    exact List.not_mem_nil
  | cons u t ih =>
    by_cases hu : u = lineFeed
    · rw [hu, lines_lineFeed_cons] at h
      rcases List.mem_cons.mp h with rfl | hrest
      · exact List.not_mem_nil
      · exact ih hrest
    · obtain ⟨first, rest, hlines⟩ : ∃ first rest, lines t = first :: rest :=
        List.exists_cons_of_length_pos (by rw [length_lines]; omega)
      rw [lines_cons_of_ne hu, hlines, List.modifyHead_cons] at h
      rw [hlines] at ih
      rcases List.mem_cons.mp h with rfl | hrest
      · exact List.not_mem_cons_of_ne_of_not_mem (Ne.symm hu) (ih List.mem_cons_self)
      · exact ih (List.mem_cons_of_mem _ hrest)

/-- Texts of one line each that are put together as lines are the lines. -/
theorem lines_intercalate {texts : List Text} (hne : texts ≠ [])
    (h : ∀ text ∈ texts, lineFeed ∉ text) : lines (List.intercalate [lineFeed] texts) = texts :=
  List.splitOn_intercalate lineFeed h hne

theorem lines_of_notMem {t : Text} (h : lineFeed ∉ t) : lines t = [t] := by
  have hlines := lines_intercalate (List.cons_ne_nil t []) (List.forall_mem_singleton.mpr h)
  rwa [List.intercalate_singleton] at hlines

/-! ### The line of a place -/

/-- What is behind the last line feed of a text. -/
def lastLine (t : Text) : Text := (t.reverse.takeWhile (· ≠ lineFeed)).reverse

@[simp]
theorem lastLine_nil : lastLine [] = [] := rfl

/-- One more unit ends the last line or makes it longer. -/
theorem lastLine_concat (t : Text) (u : CodeUnit) :
    lastLine (t ++ [u]) = if u = lineFeed then [] else t.lastLine ++ [u] := by
  by_cases hu : u = lineFeed <;> simp [lastLine, hu]

theorem lastLine_suffix (t : Text) : t.lastLine <:+ t := by
  rw [lastLine, ← List.reverse_prefix, List.reverse_reverse]
  exact List.takeWhile_prefix _

/-- **The line of a place.** It is what is behind the last line feed in front of the place, and in
front of the first one behind it. -/
theorem getElem?_lines_append (s t : Text) :
    (s ++ t).lines[s.count lineFeed]? = some (s.lastLine ++ t.firstLine) := by
  induction s using List.reverseRecOn generalizing t with
  | nil => exact List.head?_eq_getElem?.symm.trans (head?_lines t)
  | append_singleton s u ih =>
    rw [List.append_assoc, List.singleton_append, lastLine_concat, List.count_append,
      List.count_singleton]
    by_cases hu : u = lineFeed
    · have hfirst : (lines s).length ≤ s.count lineFeed + 1 := Nat.le_of_eq (length_lines s)
      simp only [hu, beq_self_eq_true, if_true]
      rw [lines_append_lineFeed, List.getElem?_append_right hfirst, length_lines, Nat.sub_self,
        ← List.head?_eq_getElem?, head?_lines, List.nil_append]
    · have hline : firstLine (u :: t) = u :: t.firstLine :=
        List.takeWhile_cons_of_pos (by simpa using hu)
      rw [if_neg hu, if_neg (by simpa using hu), Nat.add_zero, ih, hline, List.append_assoc,
        List.singleton_append]

end Text

namespace Position

/-- Rows count line feeds. -/
theorem row_after (p : Position) (t : Text) : (p.after t).row = p.row + t.count lineFeed := by
  induction t generalizing p with
  | nil => simp
  | cons u t ih =>
    rw [after_cons, ih, step]
    by_cases hu : u = lineFeed
    · simp only [hu, if_true, List.count_cons_self]
      omega
    · rw [if_neg hu, List.count_cons_of_ne hu]

/-- Columns count the units behind the last line feed. -/
theorem column_origin_after (t : Text) : (origin.after t).column = t.lastLine.length + 1 := by
  induction t using List.reverseRecOn with
  | nil => rfl
  | append_singleton t u ih =>
    rw [after_append, after_cons, after_nil, step, Text.lastLine_concat]
    by_cases hu : u = lineFeed
    · rw [if_pos hu, if_pos hu]
      rfl
    · rw [if_neg hu, if_neg hu, List.length_append, List.length_singleton, ih]
      rfl

end Position

end NestedRecords
