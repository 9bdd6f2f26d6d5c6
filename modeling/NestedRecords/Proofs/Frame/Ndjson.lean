import NestedRecords.Proofs.Pairing
import NestedRecords.Proofs.Text.Lines
import NestedRecords.Proofs.Token.Layout
import NestedRecords.Unpack

/-!
# Documents on lines

A text of records is made of lines, and what ends them has no say in what they hold
(`Ndjson.lines_joined`): a line feed, or a carriage return in front of it, and behind the last line
either of them or nothing. So reading such a text is reading its lines from the first to the last,
where the blank ones count and hold nothing (`Ndjson.mapM_readDocument`).

The reader of the documents is any partial function on texts. Reading fails with the number of the
first line that the function rejects. Blank lines move this number, and do nothing else.
-/

namespace NestedRecords

open CodeUnit

/-- A text with no line break of either kind in it. -/
def Text.Unbroken (t : Text) : Prop := lineFeed ∉ t ∧ carriageReturn ∉ t

instance (t : Text) : Decidable t.Unbroken := inferInstanceAs (Decidable (_ ∧ _))

/-- What ends a line. -/
inductive LineBreak
  | feed
  | returnAndFeed

/-- The units of a line break. -/
def LineBreak.units : LineBreak → Text
  | feed => [lineFeed]
  | returnAndFeed => [carriageReturn, lineFeed]

namespace Ndjson

/-- **Joining lines.** The text has the lines one after the other, each of them ended by a line
break of either kind; the last one may be ended by nothing. -/
inductive Joins : List Text → Text → Prop
  | nil : Joins [] []
  | last (line : Text) : Joins [line] line
  | cons (line : Text) (ending : LineBreak) {lines : List Text} {content : Text}
      (rest : Joins lines content) : Joins (line :: lines) (line ++ ending.units ++ content)

/-- A line that has to be read and cannot. -/
def rejects (read : Text → Option Value) (line : Text) : Bool :=
  !line.isBlank && (read line).isNone

variable {lines lines' : List Text} {content content' : Text} {read : Text → Option Value}

/-! ### Lines -/

/-- Whichever way a line is ended, it is cut off there. -/
theorem lines_ended {line : Text} (h : line.Unbroken) (ending : LineBreak) (rest : Text) :
    (line ++ ending.units ++ rest).unifyLineEndings.lines =
      line :: rest.unifyLineEndings.lines := by
  have hfeed : Text.unifyLineEndings (lineFeed :: rest) = lineFeed :: rest.unifyLineEndings :=
    Text.unifyLineEndings_cons fun hpair => absurd hpair.1 (by decide)
  have hending : (ending.units ++ rest).unifyLineEndings = lineFeed :: rest.unifyLineEndings := by
    cases ending with
    | feed => exact hfeed
    | returnAndFeed => exact (if_pos ⟨rfl, rfl⟩).trans hfeed
  rw [List.append_assoc, Text.unifyLineEndings_append (.inr h.2), Text.unifyLineEndings_eq_self h.2,
    hending, Text.lines_append_lineFeed, Text.lines_of_notMem h.1]
  rfl

/-- **The lines of a text of lines.** They are those it was made of, and an empty one behind them if
the last one is ended. -/
theorem lines_joined (h : Joins lines content) (hlines : ∀ line ∈ lines, line.Unbroken) :
    content.unifyLineEndings.lines = lines ∨ content.unifyLineEndings.lines = lines ++ [[]] := by
  induction h with
  | nil => exact .inr rfl
  | last line =>
    obtain ⟨hfeed, hreturn⟩ := List.forall_mem_singleton.mp hlines
    rw [Text.unifyLineEndings_eq_self hreturn]
    exact .inl (Text.lines_of_notMem hfeed)
  | cons line ending _ ih =>
    obtain ⟨hline, hlines⟩ := List.forall_mem_cons.mp hlines
    rw [lines_ended hline]
    exact (ih hlines).imp (congrArg (line :: ·)) (congrArg (line :: ·))

/-- The documents of a text of lines are the lines that are not blank, with their numbers. -/
theorem documents_joined (h : Joins lines content) (hlines : ∀ line ∈ lines, line.Unbroken) :
    documents content = (lines.zipIdx 1).filter (!·.1.isBlank) := by
  rw [documents]
  rcases lines_joined h hlines with hjoined | hjoined
  · rw [hjoined]
  -- the line behind the last line break is blank
  · rw [hjoined, List.zipIdx_append, List.filter_append]
    exact List.append_nil _

/-! ### Reading -/

/-- **Reading numbered lines.** Reading stops at the first line that is rejected, or gives the
records of all lines that are not blank. -/
theorem mapM_readDocument (read : Text → Option Value) (lines : List Text) (start : Nat) :
    ((lines.zipIdx start).filter (!·.1.isBlank)).mapM (readDocument read) =
      match lines.findIdx? (rejects read) with
      | some index => .error ⟨start + index⟩
      | none => .ok ((lines.filter (!·.isBlank)).filterMap read) := by
  induction lines generalizing start with
  | nil => rfl
  | cons line rest ih =>
    have hnumber : ∀ index, Except.error (ε := LineError) (α := List Value) ⟨start + 1 + index⟩ =
        .error ⟨start + (index + 1)⟩ := fun index => by rw [Nat.add_right_comm, Nat.add_assoc]
    rw [List.zipIdx_cons, List.findIdx?_cons]
    cases hblank : line.isBlank with
    | true =>
      have hrejects : rejects read line = false := by rw [rejects, hblank]; rfl
      rw [hrejects, List.filter_cons_of_neg (by simpa using hblank),
        List.filter_cons_of_neg (by simpa using hblank), ih]
      cases rest.findIdx? (rejects read) with
      | none => rfl
      | some index => exact hnumber index
    | false =>
      rw [List.filter_cons_of_pos (by simpa using hblank),
        List.filter_cons_of_pos (by simpa using hblank), List.mapM_cons]
      cases hread : read line with
      | none =>
        have hrejects : rejects read line = true := by rw [rejects, hblank, hread]; rfl
        rw [hrejects, readDocument, hread]
        rfl
      | some record =>
        have hrejects : rejects read line = false := by rw [rejects, hblank, hread]; rfl
        rw [hrejects, readDocument, hread, ih, List.filterMap_cons_some hread]
        cases rest.findIdx? (rejects read) with
        | none => rfl
        | some index => exact hnumber index

/-- **Reading a text of lines.** It fails with the number of the first line that is rejected, or
gives the frame of the records on the lines that are not blank. -/
theorem ofNdjson_joined (h : Joins lines content) (hlines : ∀ line ∈ lines, line.Unbroken)
    (read : Text → Option Value) :
    Frame.ofNdjson content read =
      match lines.findIdx? (rejects read) with
      | some index => .error ⟨index + 1⟩
      | none => .ok (.ofRecords ((lines.filter (!·.isBlank)).filterMap read)) := by
  rw [Frame.ofNdjson, records, documents_joined h hlines, mapM_readDocument]
  cases lines.findIdx? (rejects read) with
  | none => rfl
  | some index =>
    change Except.error (LineError.mk (1 + index)) = .error ⟨index + 1⟩
    rw [Nat.add_comm]

/-- No line is rejected if all documents can be read. -/
theorem findIdx?_rejects_eq_none_iff : lines.findIdx? (rejects read) = none ↔
    ∀ line ∈ lines.filter (!·.isBlank), (read line).isSome := by
  simp only [List.findIdx?_eq_none_iff, rejects, List.mem_filter, Bool.and_eq_false_imp, and_imp,
    Option.isNone_eq_false_iff]

/-- Texts with the same documents give the same frame, or neither of them can be read. -/
theorem ofNdjson_paired (h : Joins lines content) (hlines : ∀ line ∈ lines, line.Unbroken)
    (h' : Joins lines' content') (hlines' : ∀ line ∈ lines', line.Unbroken)
    (hdocuments : lines'.filter (!·.isBlank) = lines.filter (!·.isBlank))
    (read : Text → Option Value) :
    Paired (fun _ _ => True) Eq (Frame.ofNdjson content read) (Frame.ofNdjson content' read) := by
  have hrejects : lines'.findIdx? (rejects read) = none ↔ lines.findIdx? (rejects read) = none := by
    rw [findIdx?_rejects_eq_none_iff, findIdx?_rejects_eq_none_iff, hdocuments]
  rw [ofNdjson_joined h hlines, ofNdjson_joined h' hlines', hdocuments]
  cases hfirst : lines.findIdx? (rejects read) with
  | none =>
    rw [hrejects.mpr hfirst]
    exact .ok rfl
  | some index =>
    cases hfirst' : lines'.findIdx? (rejects read) with
    | none => exact absurd (hfirst.symm.trans (hrejects.mp hfirst')) (by simp)
    | some index' => exact .error trivial

end Ndjson

/-- Two errors that say the same, but for the number of a line. -/
inductive UnpackError.SameCause : UnpackError → UnpackError → Prop
  | line (error error' : LineError) : SameCause (.records error) (.records error')
  | same (error : UnpackError) : SameCause error error

namespace Ndjson

variable {lines : List Text} {content : Text}

/-- **Lines and documents.** A text of lines is rejected exactly where one of the lines is that are
not blank, with the number of the first such line among all of them. Otherwise it has the frame of
the records on the lines that are not blank, in order. So the line breaks have no say in what a text
unpacks to, and neither have blank lines, except for the number of a line that is rejected. -/
theorem unpackNdjson_joined (h : Joins lines content) (hlines : ∀ line ∈ lines, line.Unbroken) :
    (∀ read : Text → Option Value, Frame.ofNdjson content read =
      match lines.findIdx? (rejects read) with
      | some index => .error ⟨index + 1⟩
      | none => .ok (.ofRecords ((lines.filter (!·.isBlank)).filterMap read))) ∧
    (∀ content', Joins lines content' → ∀ source options,
      unpackNdjson source content' options = unpackNdjson source content options) ∧
    ∀ lines' content', Joins lines' content' → (∀ line ∈ lines', line.Unbroken) →
      lines'.filter (!·.isBlank) = lines.filter (!·.isBlank) → ∀ source options,
        Paired UnpackError.SameCause Eq (unpackNdjson source content options)
          (unpackNdjson source content' options) := by
  refine ⟨ofNdjson_joined h hlines, fun content' h' source options => ?_,
    fun lines' content' h' hlines' hdocuments source options => ?_⟩
  · rw [unpackNdjson, unpackNdjson, ofNdjson_joined h hlines, ofNdjson_joined h' hlines]
  · have hframes := ofNdjson_paired h hlines h' hlines' hdocuments Value.ofText?
    refine (hframes.mapError fun error error' _ => .line error error').bind ?_
    rintro frame _ rfl
    cases Frame.records <$> unpack source frame options with
    | error error => exact .error (.same error)
    | ok rows => exact .ok rfl

/-- A text with a line that is no document, behind a blank one, and two texts with the same
documents among blank lines. -/
theorem unpackNdjson_joined_blank :
    Frame.ofNdjson (Text.ofString "null\r\n\n[\r\n") = .error ⟨3⟩ ∧
      ∃ rows, unpackNdjson (Text.ofString "Utf8") (Text.ofString "\"x\"\r\n\u00A0\nnull") =
          .ok rows ∧
        unpackNdjson (Text.ofString "Utf8") (Text.ofString "\r\n\"x\"\nnull\n") = .ok rows := by
  have hrejected : Joins [Text.ofString "null", [], Text.ofString "["]
      (Text.ofString "null\r\n\n[\r\n") := by
    have heq : Text.ofString "null\r\n\n[\r\n" = Text.ofString "null" ++
        LineBreak.returnAndFeed.units ++ ([] ++ LineBreak.feed.units ++
          (Text.ofString "[" ++ LineBreak.returnAndFeed.units ++ [])) := by decide +kernel
    exact heq ▸ .cons _ _ (.cons _ _ (.cons _ _ .nil))
  have hblank : Joins [Text.ofString "\"x\"", Text.ofString "\u00A0", Text.ofString "null"]
      (Text.ofString "\"x\"\r\n\u00A0\nnull") := by
    have heq : Text.ofString "\"x\"\r\n\u00A0\nnull" = Text.ofString "\"x\"" ++
        LineBreak.returnAndFeed.units ++ (Text.ofString "\u00A0" ++ LineBreak.feed.units ++
          Text.ofString "null") := by decide +kernel
    exact heq ▸ .cons _ _ (.cons _ _ (.last _))
  have hother : Joins [[], Text.ofString "\"x\"", Text.ofString "null"]
      (Text.ofString "\r\n\"x\"\nnull\n") := by
    have heq : Text.ofString "\r\n\"x\"\nnull\n" = [] ++ LineBreak.returnAndFeed.units ++
        (Text.ofString "\"x\"" ++ LineBreak.feed.units ++
          (Text.ofString "null" ++ LineBreak.feed.units ++ [])) := by decide +kernel
    exact heq ▸ .cons _ _ (.cons _ _ (.cons _ _ .nil))
  constructor
  · have hlines : ∀ line ∈ [Text.ofString "null", [], Text.ofString "["], line.Unbroken := by
      decide +kernel
    exact ((unpackNdjson_joined hrejected hlines).1 Value.ofText?).trans (by decide +kernel)
  · have hlines : ∀ line ∈ [Text.ofString "\"x\"", Text.ofString "\u00A0", Text.ofString "null"],
        line.Unbroken := by decide +kernel
    have hunpacked : ((unpackNdjson (Text.ofString "Utf8")
        (Text.ofString "\"x\"\r\n\u00A0\nnull")).toOption.map List.length) = some 2 := by
      decide +kernel
    obtain ⟨rows, hrows, -⟩ := toOption_map_eq_some_iff.mp hunpacked
    obtain ⟨rows', hrows', rfl⟩ := ((unpackNdjson_joined hblank hlines).2.2 _ _ hother
      (by decide +kernel) (by decide +kernel) _ _).exists_ok hrows
    exact ⟨rows, hrows, hrows'⟩

end Ndjson

end NestedRecords
