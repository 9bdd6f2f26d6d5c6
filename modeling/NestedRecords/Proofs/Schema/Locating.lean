import NestedRecords.Proofs.Diagnostic.Carets
import NestedRecords.Proofs.Schema.Spelling

/-!
# Where a schema text is refused

A text is refused at a fragment of it: at a part of one of its tokens, or at what the lexer left
over (`Fragment.Offends`). Reading one token only ever complains about parts of the tokens read so
far, and that follows from reading the text beside itself (`Fragment.run_respells`).

Such a fragment is a piece of the text and does not begin with a filler, least of all with a line
feed. So it never stands at the start of a text that begins with one, where a diagnostic cannot be
drawn. At all other places the two ways to a place agree, and the error stands where the fragment
does (`Issue.Locates`), with carets below all of it. `compile_failure_located` puts this together.
-/

namespace NestedRecords

open CodeUnit

/-! ### Offending fragments -/

namespace Fragment

variable {f site : Fragment} {separator : String} {rejection : Rejection}

/-- **Offending fragments.** A part of a token of the text, or what the lexer could not read. -/
inductive Offends (f : Fragment) : Fragment → Prop
  | part {token : Token} {part : Fragment} (htoken : token ∈ f.tokens.1)
    (hpart : part ∈ token.parts) : Offends f part
  | unread {rejection : Rejection} (h : rejection ∈ f.tokens.2) : Offends f rejection.site

theorem offends_of_sameSite (h : Token.SameSite f.tokens.1 f.tokens.1 site site) :
    f.Offends site := by
  obtain ⟨index, part, hsite, -⟩ := h
  obtain ⟨token, htoken, hpart⟩ := Option.bind_eq_some_iff.mp hsite
  exact .part (List.mem_of_getElem? htoken) (List.mem_of_getElem? hpart)

/-- A text is refused at a fragment of it. -/
theorem offends_of_schema (h : f.schema separator = .error rejection) :
    f.Offends rejection.site := by
  have hrun := run_respells (f := f) rfl separator f.tokens.1.length
  rw [List.take_length] at hrun
  rw [schema_eq] at h
  generalize f.tokens.1.foldlM (Builder.apply separator) {} = read at h hrun
  cases hrun with
  | error hrespells =>
    obtain rfl := Except.error.inj h
    exact offends_of_sameSite hrespells.site
  | @ok b _ hb =>
    rw [ok_bind] at h
    split at h
    · rename_i hunread
      obtain rfl := Except.error.inj h
      exact .unread hunread
    · have hfinish := b.finish_respells hb separator
      rw [h] at hfinish
      cases hfinish with
      | error hrespells => exact offends_of_sameSite hrespells.site

theorem Offends.pieceOf (h : f.Offends site) : site.PieceOf f := by
  cases h with
  | part htoken hpart => exact f.pieceOf_of_mem_lex _ (List.mem_flatMap.mpr ⟨_, htoken, hpart⟩)
  | unread h => exact (site_of_mem_tokens_snd h).1 ▸ f.pieceOf_lex_rest

/-- An offending fragment does not begin with a filler. -/
theorem Offends.exists_head (h : f.Offends site) : ∃ u ∈ site.text.head?, u.isFiller = false := by
  cases h with
  | part htoken hpart => exact (f.lex_tiles.isPart _ htoken _ hpart).exists_head
  | unread h =>
    obtain ⟨u, hu, -, hfiller⟩ := exists_head_of_mem_tokens_snd h
    exact ⟨u, hu, hfiller⟩

end Fragment

/-! ### The place of the issue -/

namespace Issue

variable {source : Text} {site : Fragment} {issue : Issue}

/-- **Well located.** The issue stands in the text where the fragment does, and has the text of the
whole line there. -/
structure Locates (source : Text) (site : Fragment) (issue : Issue) : Prop where
  start : (issue.start : Int) = site.start.offset
  text : site.text = (source.drop issue.start).take site.text.length
  line : (issue.line : Int) = site.start.row
  column : (issue.column : Int) = site.start.column
  one_le_line : 1 ≤ issue.line
  one_le_column : 1 ≤ issue.column
  lineText : source.lines[issue.line - 1]? = some issue.lineText

/-- **The place of a piece.** The issue at the offset of a piece is well located. -/
theorem locates_of_pieceOf (hpiece : site.PieceOf { text := source })
    (hhead : ∃ u ∈ site.text.head?, u.isFiller = false) :
    (locate source site.start.offset).Locates source site := by
  have hnot : ¬(site.start.offset ≤ 0 ∧ source.head? = some lineFeed) :=
    fun ⟨hoffset, hsource⟩ =>
      absurd (hpiece.offset_pos hhead hsource (by decide)) (Int.not_lt.mpr hoffset)
  obtain ⟨distance, hoffset, hstart, htext⟩ := hpiece.exists_distance
  obtain ⟨u, hu, -⟩ := hhead
  have hbase : site.start.offset = distance := hoffset.trans (Int.zero_add _)
  have hplace : Fragment.advance { text := source } site.start.offset = site.start := by
    rw [hbase, hstart]
  have hlt : distance < source.length := by
    by_contra hge
    rw [htext, List.drop_eq_nil_of_le (by simpa using hge), List.take_nil] at hu
    contradiction
  have hissue : (locate source site.start.offset).start = distance := by
    simp only [locate]
    omega
  refine ⟨by rw [hissue, hbase], by rw [hissue]; exact htext, ?_, ?_, Nat.succ_pos _, ?_,
    getElem?_lines_locate source _⟩
  · rw [line_locate, hplace]
  · rw [column_locate hnot, hplace]
  · exact Nat.pos_of_ne_zero fun hzero => hnot (column_locate_eq_zero_iff.mp hzero)

/-! ### The carets -/

/-- No unit of a word ends the span of an issue. -/
theorem isSpanEnd_eq_false_of_isWord {u : CodeUnit} (h : u.isWord = true) :
    u.isSpanEnd = false := by
  rw [isWord_iff] at h
  rw [Bool.eq_false_iff, isSpanEnd, ne_eq, Bool.or_eq_true, Bool.or_eq_true, isOpening_iff,
    isClosing_iff, beq_iff_eq, ← UInt16.toNat_inj]
  have hfeed : lineFeed.toNat = 10 := rfl
  omega

/-- The carets below a part of a token are as many as it has units, or more. -/
theorem length_le_carets (hpiece : site.PieceOf { text := source }) (hpart : site.IsPart) :
    site.text.length ≤ max ((locate source site.start.offset).stop -
      (locate source site.start.offset).start) 1 := by
  rcases hpart with ⟨-, hword⟩ | ⟨u, htext, -⟩
  · obtain ⟨distance, hoffset, -, htext⟩ := hpiece.exists_distance
    have hspan : (locate source site.start.offset).stop -
        (locate source site.start.offset).start =
          ((source.drop distance).takeWhile (!·.isSpanEnd)).length := by
      have hbase : site.start.offset.toNat = distance := by
        rw [hoffset]
        exact congrArg Int.toNat (Int.zero_add _)
      simp only [locate, hbase, ← List.drop_eq_drop_min]
      omega
    -- from the place of the piece on the text begins with the piece
    rw [hspan, ← List.take_append_drop site.text.length (source.drop distance), ← htext,
      List.takeWhile_append_of_pos fun u hu => by simp [isSpanEnd_eq_false_of_isWord (hword u hu)],
      List.length_append]
    omega
  · rw [htext]
    exact Nat.le_max_right _ _

end Issue

/-! ### Failures -/

theorem Problem.kind_ne_general (problem : Problem) : problem.kind ≠ .general := by
  cases problem <;> exact nofun

/-- **Failures are well located.** Whenever a text does not compile, a fragment of it is to blame,
and the failure is an error of one of the kinds for schema texts, never one about the diagnostic.
The error stands where the fragment does. The last line of its diagnostic has carets from the column
of the error on, one at least, and below a part of a token as many as it has units. -/
theorem compile_failure_located {source : Text} {options : CompileOptions} {failure : SchemaFailure}
    (h : compile source options = .error failure) :
    ∃ rejection error, (Fragment.ofSource source).schema options.separator = .error rejection ∧
      (Fragment.ofSource source).Offends rejection.site ∧ failure = .invalid error ∧
      error.kind = rejection.problem.kind ∧ error.kind ≠ .general ∧
      error.issue.Locates source.unifyLineEndings rejection.site ∧
      ∃ carets : Nat, 1 ≤ carets ∧
        (∀ token ∈ (Fragment.ofSource source).tokens.1, rejection.site ∈ token.parts →
          rejection.site.text.length ≤ carets) ∧
        error.diagnostic.lines.getLast? = some (Text.ofString "     ? │ " ++
          (List.replicate (error.issue.column - 1) (ofChar ' ') ++
            List.replicate carets (ofChar '^'))) := by
  rw [compile] at h
  cases hschema : (Fragment.ofSource source).schema options.separator with
  | ok schema =>
    rw [hschema] at h
    contradiction
  | error rejection =>
    rw [hschema] at h
    obtain rfl := Except.error.inj h
    have hoffends := Fragment.offends_of_schema hschema
    have hpiece : rejection.site.PieceOf { text := source.unifyLineEndings } := hoffends.pieceOf
    have hlocates := Issue.locates_of_pieceOf hpiece hoffends.exists_head
    obtain ⟨error, herror, hkind, hissue⟩ := rejection.exists_failure_eq_invalid
      (fun hhead => hpiece.offset_pos hoffends.exists_head hhead (by decide)) options.sourceName
    have hdrawn := Issue.getLast?_lines_diagnostic (SchemaFailure.diagnostic_of_locate herror)
    refine ⟨rejection, error, rfl, hoffends, herror, hkind,
      hkind ▸ rejection.problem.kind_ne_general, hissue ▸ hlocates,
      max (error.issue.stop - error.issue.start) 1, Nat.le_max_right _ _, ?_, hdrawn⟩
    intro token htoken hpart
    rw [hissue]
    exact Issue.length_le_carets hpiece
      ((Fragment.ofSource source).lex_tiles.isPart token htoken _ hpart)

/-- A text that begins with a line ending, where the last of three lines has an unknown type. -/
theorem compile_failure_located_unknown :
    let source := Text.ofString "\r\na: List(Int),\r\nb: List<Foo>"
    ∃ failure, compile source = .error failure ∧ ∃ site error, failure = .invalid error ∧
      (Fragment.ofSource source).Offends site ∧
      error.issue.Locates source.unifyLineEndings site := by
  intro source
  have hnone : (compile source).toOption = none := by decide +kernel
  obtain ⟨failure, hfailure⟩ := toOption_eq_none_iff.mp hnone
  obtain ⟨rejection, error, -, hoffends, herror, -, -, hlocates, -⟩ :=
    compile_failure_located hfailure
  exact ⟨failure, hfailure, rejection.site, error, herror, hoffends, hlocates⟩

end NestedRecords
