import Mathlib.Data.List.TakeWhile
import NestedRecords.Proofs.Diagnostic.Places
import NestedRecords.Proofs.Text.Words

/-!
# Carets below an issue

A diagnostic is put together from lines, none of which has a line feed in it, so its lines can be
told apart again (`Issue.lines_diagnostic`). Behind the two lines at the top come the lines of the
source up to that of the issue, and then the line with the carets.

A line of the source stands behind a gutter with its number, which is padded to three digits, and
the carets stand behind a gutter of its own that has the width of three digits
(`Issue.length_gutter`). So the carets stand below the issue as long as the number of its line has
no more than three digits. From line 1000 on they stand too far to the left.
-/

namespace NestedRecords

open CodeUnit

namespace Text

/-- A string without line feeds has no unit that is one. -/
theorem lineFeed_notMem_ofString {s : String} (h : '\n' ∉ s.toList) : lineFeed ∉ ofString s := by
  intro hmem
  obtain ⟨c, hc, hunit⟩ := List.mem_flatMap.mp hmem
  have hvalid : c.toNat < 0xD800 ∨ 0xDFFF < c.toNat ∧ c.toNat < 0x110000 := c.valid
  have hfeed : lineFeed.toNat = '\n'.toNat := rfl
  unfold encodeChar at hunit
  split at hunit
  · rename_i hplane
    have hval := (eq_ofChar_iff hplane).mp (List.mem_singleton.mp hunit)
    have hnewline : c = '\n' := Char.toNat_inj.mp (hval.symm.trans hfeed)
    exact h (hnewline ▸ hc)
  -- the halves of a surrogate pair lie far above the line feed
  · simp only [List.mem_cons, List.not_mem_nil, or_false, ← UInt16.toNat_inj,
      UInt16.toNat_ofNat', hfeed, Char.reduceToNat] at hunit
    omega

end Text

namespace Issue

variable {source unread drawn : Text} {issue : Issue} {offset : Option Int}

/-! ### Gutters -/

/-- What stands in front of a line of the excerpt. -/
def gutter (label : String) : Text := gutterLine label []

theorem gutterLine_eq (label : String) (content : Text) :
    gutterLine label content = gutter label ++ content := by
  rw [gutter, gutterLine, gutterLine, List.append_nil]

theorem isDigit_of_mem_toString {n : Nat} {c : Char} (h : c ∈ (toString n).toList) :
    c.isDigit = true := by
  rw [Nat.toString_eq_ofList_toDigits, String.toList_ofList] at h
  exact Nat.isDigit_of_mem_toDigits (by decide) (by decide) h

theorem length_toString_le_iff {n : Nat} : (toString n).length ≤ 3 ↔ n < 1000 := by
  rw [Nat.toString_eq_ofList_toDigits, String.length_ofList]
  exact Nat.length_toDigits_le_iff (by decide) (by decide)

theorem newline_notMem_toString (n : Nat) : '\n' ∉ (toString n).toList := fun hmem =>
  absurd (isDigit_of_mem_toString hmem) (by decide)

/-- **The width of a gutter.** A number takes three units, or as many as it has digits if these are
more. -/
theorem length_gutter (n : Nat) : (gutter (toString n)).length = max 3 (toString n).length + 6 := by
  have hplane : ∀ c ∈ (String.ofList ((toString n).toList.leftpad 3 ' ')).toList,
      c.toNat < 0x10000 := by
    intro c hc
    rw [String.toList_ofList, List.leftpad] at hc
    rcases List.mem_append.mp hc with hpad | hdigit
    · rw [List.eq_of_mem_replicate hpad]
      decide
    · have hrange := isDigit_of_mem_toString hdigit
      simp only [Char.isDigit, Bool.and_eq_true, decide_eq_true_eq, UInt32.le_iff_toNat_le]
        at hrange
      exact Nat.lt_of_le_of_lt hrange.2 (by decide)
  have hfront : (Text.ofString "   ").length = 3 := by decide
  have hback : (Text.ofString " │ ").length = 3 := by decide
  rw [gutter, gutterLine, List.append_nil, Text.ofString_append, Text.ofString_append,
    List.length_append, List.length_append, hfront, hback, Text.ofString_eq_map hplane,
    List.length_map, String.toList_ofList, List.length_leftpad, String.length_toList]
  omega

theorem lineFeed_notMem_gutter {label : String} (h : '\n' ∉ label.toList) :
    lineFeed ∉ gutter label := by
  rw [gutter, gutterLine, List.append_nil]
  exact Text.lineFeed_notMem_ofString (by simp [List.leftpad, h])

/-! ### The lines of a diagnostic -/

theorem column_ne_zero (h : issue.diagnostic source = .ok drawn) : issue.column ≠ 0 := by
  intro hzero
  rw [Issue.diagnostic, if_pos hzero] at h
  contradiction

/-- **Lines.** The lines of a diagnostic are those it was put together from. -/
theorem lines_diagnostic (h : issue.diagnostic source = .ok drawn) :
    drawn.lines = [Text.ofString ("Tripped on line " ++ toString issue.line), []] ++
      excerpt source issue ++ [gutterLine "?" issue.carets] := by
  rw [Issue.diagnostic] at h
  split at h
  · contradiction
  · obtain rfl := Except.ok.inj h
    refine Text.lines_intercalate (by simp) fun line hline => ?_
    simp only [List.mem_append, List.mem_cons, List.not_mem_nil, or_false] at hline
    rcases hline with ((rfl | rfl) | hexcerpt) | rfl
    · refine Text.lineFeed_notMem_ofString ?_
      rw [String.toList_append, List.mem_append, not_or]
      exact ⟨by decide, newline_notMem_toString issue.line⟩
    · exact List.not_mem_nil
    · obtain ⟨i, hi, rfl⟩ := List.mem_mapIdx.mp hexcerpt
      have hsource := Text.lineFeed_notMem_of_mem_lines (List.mem_of_mem_take (List.getElem_mem hi))
      rw [gutterLine_eq, List.mem_append, not_or]
      exact ⟨lineFeed_notMem_gutter (newline_notMem_toString (i + 1)), hsource⟩
    · rw [gutterLine, carets]
      simp only [List.mem_append, List.mem_replicate, not_or]
      exact ⟨by decide, fun hspace => absurd hspace.2 (by decide),
        fun hcaret => absurd hcaret.2 (by decide)⟩

/-- The last line of a diagnostic holds the carets. -/
theorem getLast?_lines_diagnostic (h : issue.diagnostic source = .ok drawn) :
    drawn.lines.getLast? = some (gutterLine "?" issue.carets) := by
  rw [lines_diagnostic h, List.getLast?_concat]

/-- A line of the source up to that of the issue stands in the diagnostic, behind its number. -/
theorem getElem?_lines_diagnostic (h : issue.diagnostic source = .ok drawn) {i : Nat}
    (hi : i < issue.line) {line : Text} (hline : source.lines[i]? = some line) :
    drawn.lines[i + 2]? = some (gutter (toString (i + 1)) ++ line) := by
  have hexcerpt : (excerpt source issue)[i]? = some (gutter (toString (i + 1)) ++ line) := by
    rw [excerpt, List.getElem?_mapIdx, List.getElem?_take, if_pos hi, hline, Option.map_some,
      gutterLine_eq]
  have hlt : i < (excerpt source issue).length := (List.getElem?_eq_some_iff.mp hexcerpt).1
  rw [lines_diagnostic h, List.append_assoc, List.getElem?_append_right (Nat.le_add_left 2 i)]
  exact (List.getElem?_append_left hlt).trans hexcerpt

/-- The lines of a diagnostic are two, those of the excerpt and one more. -/
theorem length_lines_diagnostic (h : issue.diagnostic source = .ok drawn)
    (hle : issue.line ≤ source.lines.length) : drawn.lines.length = issue.line + 3 := by
  rw [lines_diagnostic h, List.length_append, List.length_append, excerpt, List.length_mapIdx,
    List.length_take, Nat.min_eq_left hle]
  simp only [List.length_cons, List.length_nil]
  omega

/-! ### The line of the issue -/

/-- The line of an issue is one of the source. -/
theorem line_locate_le (source : Text) (offset : Int) :
    (locate source offset).line ≤ source.lines.length := by
  rw [Text.length_lines]
  exact Nat.succ_le_succ ((List.take_sublist _ source).count_le lineFeed)

/-- The span of an issue ends where its line does, or in front of that. -/
theorem span_locate_le (source : Text) (offset : Int) :
    (locate source offset).stop - (locate source offset).start ≤
      (Text.firstLine (source.drop (locate source offset).start)).length := by
  have hspan : ∀ t : Text, t.takeWhile (!·.isSpanEnd) = t.firstLine.takeWhile (!·.isSpanEnd) := by
    intro t
    rw [Text.firstLine, List.takeWhile_takeWhile]
    refine congrArg (List.takeWhile · t) (funext fun u => ?_)
    by_cases hu : u = lineFeed
    · rw [hu]
      decide
    · simp [hu]
  simp only [locate, Nat.add_sub_cancel_left]
  rw [hspan]
  exact (List.takeWhile_prefix _).length_le

/-- What stands in front of the issue in the line above the carets. -/
def front (source : Text) (issue : Issue) : Text :=
  gutter (toString issue.line) ++ Text.lastLine (source.take issue.start)

/-- The line above the carets shows the line of the issue. -/
theorem getElem?_lines_issue {start : Int}
    (h : (locate source start).diagnostic source = .ok drawn) :
    drawn.lines[(locate source start).line + 1]? = some (front source (locate source start) ++
      Text.firstLine (source.drop (locate source start).start)) := by
  obtain ⟨n, hn⟩ : ∃ n, (locate source start).line = n + 1 := ⟨_, rfl⟩
  have hline := getElem?_lines_locate source start
  rw [hn, Nat.add_sub_cancel, lineText_locate] at hline
  rw [front, List.append_assoc, hn]
  exact getElem?_lines_diagnostic h (hn ▸ Nat.lt_succ_self n) hline

/-- What stands in front of the carets. -/
def margin (issue : Issue) : Text :=
  gutter "?" ++ List.replicate (issue.column - 1) (ofChar ' ')

theorem gutterLine_carets (issue : Issue) : gutterLine "?" issue.carets =
    issue.margin ++ List.replicate (max (issue.stop - issue.start) 1) (ofChar '^') := by
  rw [gutterLine_eq, carets, margin, List.append_assoc]

theorem length_front (source : Text) (issue : Issue) :
    (front source issue).length = max 3 (toString issue.line).length + 6 +
      (Text.lastLine (source.take issue.start)).length := by
  rw [front, List.length_append, length_gutter]

/-- The line with the carets is the one behind the excerpt. -/
theorem getElem?_lines_carets {start : Int}
    (h : (locate source start).diagnostic source = .ok drawn) :
    drawn.lines[(locate source start).line + 2]? = some ((locate source start).margin ++
      List.replicate (max ((locate source start).stop - (locate source start).start) 1)
        (ofChar '^')) := by
  have hlast := getLast?_lines_diagnostic h
  rw [List.getLast?_eq_getElem?, length_lines_diagnostic h (line_locate_le source start),
    gutterLine_carets] at hlast
  exact hlast

theorem caret_notMem_margin (issue : Issue) : ofChar '^' ∉ issue.margin := by
  rw [margin, List.mem_append, List.mem_replicate, not_or]
  exact ⟨by decide, fun hspace => absurd hspace.2 (by decide)⟩

/-- The carets stand as far from their gutter as the issue from the start of its line. -/
theorem length_margin {start : Int} (h : (locate source start).diagnostic source = .ok drawn) :
    (locate source start).margin.length =
      9 + (Text.lastLine (source.take (locate source start).start)).length := by
  have hcolumn := column_locate_eq_length fun hstart =>
    column_ne_zero h (column_locate_eq_zero_iff.mpr hstart)
  have hwidth : (gutter "?").length = 9 := by decide
  rw [margin, List.length_append, List.length_replicate, hwidth, hcolumn, Nat.add_sub_cancel]

/-! ### Drawn diagnostics -/

/-- The issue that is shown when something could not be read. -/
def ofUnread (source unread : Text) (offset : Option Int) : Issue :=
  locate source (match offset with
    | some offset => offset
    | none => ((unread.indexOf? source).getD 0 : Nat))

theorem diagnose_eq (source unread : Text) (offset : Option Int) :
    diagnose source unread offset = (ofUnread source unread offset).diagnostic source := rfl

/-- **Carets.** A drawn diagnostic has three lines more than its excerpt. The excerpt shows the
lines of the source up to that of the issue, in order and each behind its gutter. The carets of the
last line do not reach beyond the line of the issue, unless the span they are drawn for is empty.
They begin at the column of the issue in the line above them if the number of that line has no more
than three digits, and to the left of it otherwise. -/
theorem lines_diagnose (h : diagnose source unread offset = .ok drawn) :
    let issue := ofUnread source unread offset
    drawn.lines.length = issue.line + 3 ∧
    (∀ i < issue.line, ∃ line, source.lines[i]? = some line ∧
      drawn.lines[i + 2]? = some (gutter (toString (i + 1)) ++ line)) ∧
    ∃ front margin, ∃ carets : Nat,
      drawn.lines[issue.line + 1]? =
        some (front ++ Text.firstLine (source.drop issue.start)) ∧
      drawn.lines[issue.line + 2]? = some (margin ++ List.replicate carets (ofChar '^')) ∧
      ofChar '^' ∉ margin ∧ 1 ≤ carets ∧
      (issue.start < issue.stop →
        carets ≤ (Text.firstLine (source.drop issue.start)).length) ∧
      margin.length ≤ front.length ∧ (margin.length = front.length ↔ issue.line < 1000) := by
  obtain ⟨start, hstart⟩ : ∃ start, ofUnread source unread offset = locate source start := ⟨_, rfl⟩
  rw [diagnose_eq, hstart] at h
  rw [hstart]
  intro issue
  have hle : issue.line ≤ source.lines.length := line_locate_le source start
  have hmargin : issue.margin.length = 9 + (Text.lastLine (source.take issue.start)).length :=
    length_margin h
  have hfront := length_front source issue
  have hdigits := length_toString_le_iff (n := issue.line)
  refine ⟨length_lines_diagnostic h hle, fun i hi => ?_, front source issue, issue.margin,
    max (issue.stop - issue.start) 1, getElem?_lines_issue h, getElem?_lines_carets h,
    caret_notMem_margin issue, Nat.le_max_right _ _, fun hspan => ?_, ?_, ?_⟩
  · obtain ⟨line, hline⟩ : ∃ line, source.lines[i]? = some line :=
      ⟨_, List.getElem?_eq_getElem (Nat.lt_of_lt_of_le hi hle)⟩
    exact ⟨line, hline, getElem?_lines_diagnostic h hi hline⟩
  · have hwithin : issue.stop - issue.start ≤
        (Text.firstLine (source.drop issue.start)).length := span_locate_le source start
    omega
  · omega
  · omega

/-- The name of a type on the second line of a text, indented. -/
theorem lines_diagnose_indented :
    let source := Text.ofString "a: Struct(\n    b: Foo\n)"
    let drawn := Text.ofString
      "Tripped on line 2\n\n     1 │ a: Struct(\n     2 │     b: Foo\n     ? │        ^^^"
    diagnose source (Text.ofString "Foo") = .ok drawn ∧
      ∃ front margin, ∃ carets : Nat, carets ≤ 3 ∧
        drawn.lines[3]? = some (front ++ Text.ofString "Foo") ∧
        drawn.lines[4]? = some (margin ++ List.replicate carets (ofChar '^')) ∧
        margin.length = front.length := by
  intro source drawn
  have hissue : ofUnread source (Text.ofString "Foo") none =
      ⟨18, 21, 2, 8, Text.ofString "    b: Foo"⟩ := by decide +kernel
  have hdrawn : diagnose source (Text.ofString "Foo") = .ok drawn := by
    rw [diagnose_eq, hissue]
    decide +kernel
  obtain ⟨-, -, front, margin, carets, habove, hpointer, -, -, hspan, -, halign⟩ :=
    lines_diagnose hdrawn
  rw [hissue] at habove hpointer hspan halign
  exact ⟨hdrawn, front, margin, carets, hspan (by decide), habove, hpointer,
    halign.mpr (by decide)⟩

/-- On line 1000 the carets stand one unit to the left of the issue. -/
theorem lines_diagnose_fails :
    let source := List.replicate 999 lineFeed ++ Text.ofString "x"
    ∃ drawn above pointer, diagnose source (Text.ofString "x") (some 999) = .ok drawn ∧
      (ofUnread source (Text.ofString "x") (some 999)).line = 1000 ∧
      drawn.lines[1001]? = some above ∧ drawn.lines[1002]? = some pointer ∧
      above.idxOf (ofChar 'x') = 10 ∧ pointer.idxOf (ofChar '^') = 9 := by
  intro source
  have hissue : locate source 999 = ⟨999, 1000, 1000, 1, Text.ofString "x"⟩ := by decide +kernel
  have hcolumn : (locate source 999).column ≠ 0 := by
    rw [hissue]
    decide
  obtain ⟨drawn, hdrawn⟩ : ∃ drawn, (locate source 999).diagnostic source = .ok drawn :=
    ⟨_, if_neg hcolumn⟩
  have habove := getElem?_lines_issue hdrawn
  have hpointer := getElem?_lines_carets hdrawn
  rw [hissue] at habove hpointer
  exact ⟨drawn, _, _, hdrawn, congrArg Issue.line hissue, habove, hpointer, by decide +kernel,
    by decide +kernel⟩

end Issue

end NestedRecords
