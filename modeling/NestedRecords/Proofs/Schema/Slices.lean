import NestedRecords.Proofs.Schema.Locating

/-!
# Where a slice of a text is refused

A slice of a text can be read on its own. What the lexer takes from it and what it leaves over know
their places in the whole text. The error about what is left over is located in the text of the
slice, however, by an offset that counts from the start of the whole text.

So the error stands where one gets to by walking that far through the slice alone
(`Issue.place_locate`). This is the right place if the slice begins where the text does. A slice
from further on is too short at its front, so that an error in it is found too far behind, and one
that would lie behind the end of the slice is put there.
-/

namespace NestedRecords

open CodeUnit

namespace Issue

variable {source : Text} {offset : Int}

/-- The place of an issue. -/
def place (issue : Issue) : Position := ⟨issue.start, issue.line, issue.column⟩

theorem start_locate (source : Text) (offset : Int) :
    ((locate source offset).start : Int) = (Fragment.advance { text := source } offset).offset := by
  have hstart : (locate source offset).start ≤ source.length := Nat.min_le_right _ _
  rw [advance_eq, Position.offset_after, List.length_take, Nat.min_eq_left hstart]
  exact (Int.zero_add _).symm

/-- Walking through a text does not lead out of it. -/
theorem start_locate_nat (source : Text) (distance : Nat) :
    (locate source distance).start = min distance source.length := by
  rw [locate, Int.toNat_natCast]

/-- The place of an issue is reached by walking. -/
theorem place_locate (h : ¬(offset ≤ 0 ∧ source.head? = some lineFeed)) :
    (locate source offset).place = Fragment.advance { text := source } offset := by
  rw [place, start_locate, line_locate, column_locate h]

end Issue

namespace Fragment

variable {source : Text} {first : Int} {last : Option Int} {rejection : Rejection}

/-- A piece of a source text that starts where the text does is a source text as well. -/
theorem PieceOf.eq_source {cut : Fragment} (h : cut.PieceOf { text := source })
    (hstart : cut.start.offset = 0) : cut = { text := cut.text } := by
  obtain ⟨distance, hoffset, hplace, -⟩ := h.exists_distance
  obtain rfl : distance = 0 := by
    have hbase : cut.start.offset = distance := hoffset.trans (Int.zero_add _)
    omega
  exact congrArg (Fragment.mk cut.text) hplace

/-- In a slice that begins with a line feed, the lexer does not stop at the beginning. -/
theorem start_pos_of_head_slice (h : rejection ∈ ((ofSource source).slice first last).tokens.2)
    (hhead : ((ofSource source).slice first last).text.head? = some lineFeed) :
    0 < rejection.site.start.offset := by
  have hunread := Offends.unread h
  have hlt := hunread.pieceOf.offset_lt hunread.exists_head hhead (by decide)
  obtain ⟨distance, hstart, -⟩ := (pieceOf_slice (ofSource source) first last).exists_distance
  have hbase : (ofSource source).start.offset = 0 := rfl
  omega

/-- **Errors in a slice.** When the lexer stops in a slice of a text, it stops at a unit of the text
that no token begins with and that is no filler, and what is left over has the place of that unit.
The error stands where the same number of units through the slice alone leads to. This is the right
place if the slice starts where the text does, and it has the right offset just if the slice has as
many units as are in front of the place in the whole text. -/
theorem tokens_slice_located (h : rejection ∈ ((ofSource source).slice first last).tokens.2)
    (sourceName : Option String) :
    let whole := ofSource source
    let cut := whole.slice first last
    ∃ error, rejection.failure cut.text sourceName = .invalid error ∧
      ∃ distance : Nat, rejection.site.start = whole.advance distance ∧
        (∃ u ∈ whole.text[distance]?, u.isStart = false ∧ u.isFiller = false) ∧
        error.issue.place = Fragment.advance { text := cut.text } distance ∧
        (cut.start.offset = 0 → error.issue.place = whole.advance distance) ∧
        ((error.issue.start : Int) = (whole.advance distance).offset ↔
          distance ≤ cut.text.length) := by
  intro whole cut
  have hcut : cut.PieceOf whole := pieceOf_slice whole first last
  have hsite : rejection.site.PieceOf cut := (Offends.unread h).pieceOf
  obtain ⟨u, hu, hstart, hfiller⟩ := exists_head_of_mem_tokens_snd h
  obtain ⟨distance, hoffset, hplace, htext⟩ := (hsite.trans hcut).exists_distance
  have hdistance : rejection.site.start.offset = distance := hoffset.trans (Int.zero_add _)
  obtain ⟨error, herror, -, hissue⟩ :=
    rejection.exists_failure_eq_invalid (start_pos_of_head_slice h) sourceName
  rw [hdistance] at hissue
  have herrorPlace : error.issue.place = Fragment.advance { text := cut.text } distance := by
    rw [hissue]
    refine Issue.place_locate fun ⟨hle, hhead⟩ => ?_
    have hpos := start_pos_of_head_slice h hhead
    omega
  refine ⟨error, herror, distance, hplace, ⟨u, ?_, hstart, hfiller⟩, herrorPlace,
    fun hzero => ?_, ?_⟩
  · rw [htext, List.head?_take] at hu
    split at hu
    · contradiction
    · rwa [List.head?_drop] at hu
  · obtain ⟨inside, hinside, hplaceInside, -⟩ := hsite.exists_distance
    obtain rfl : inside = distance := by omega
    have hsource : cut = { text := cut.text } := hcut.eq_source hzero
    rw [herrorPlace, ← hsource, ← hplaceInside, hplace]
  · have hmin : error.issue.start = min distance cut.text.length := by
      rw [hissue]
      exact Issue.start_locate_nat cut.text distance
    rw [hmin, ← hplace, hdistance]
    omega

/-- The first line of a text and the beginning of the second one, where the lexer stops. -/
theorem tokens_slice_located_front :
    let cut := (ofSource (Text.ofString "a: Int8,\r\n  b ? Int8")).slice 0 (some 15)
    ∃ rejection ∈ cut.tokens.2, ∃ error, rejection.failure cut.text = .invalid error ∧
      error.issue.place = ⟨13, 2, 5⟩ := by
  intro cut
  have hsites : cut.tokens.2.map (·.site.start) = some ⟨13, 2, 5⟩ := by decide +kernel
  obtain ⟨rejection, hrejection, hsite⟩ := Option.map_eq_some_iff.mp hsites
  obtain ⟨error, herror, distance, hplace, -, -, hfront, -⟩ :=
    tokens_slice_located hrejection none
  exact ⟨rejection, hrejection, error, herror, (hfront rfl).trans (hplace.symm.trans hsite)⟩

/-- A slice of the second line alone, which is shorter than the first one. The error about it is put
behind its end. -/
theorem tokens_slice_located_fails :
    let cut := (ofSource (Text.ofString "a: Int8\n$")).slice 8
    ∃ rejection ∈ cut.tokens.2, ∃ error, rejection.failure cut.text = .invalid error ∧
      rejection.site.start = ⟨8, 2, 1⟩ ∧ error.issue.place = ⟨1, 1, 2⟩ := by
  intro cut
  have hsites : cut.tokens.2.map (·.site.start) = some ⟨8, 2, 1⟩ := by decide +kernel
  obtain ⟨rejection, hrejection, hsite⟩ := Option.map_eq_some_iff.mp hsites
  have hpos : cut.text.head? = some lineFeed → 0 < rejection.site.start.offset := by
    rw [hsite]
    exact fun _ => by decide
  obtain ⟨error, herror, -, hissue⟩ := rejection.exists_failure_eq_invalid hpos none
  refine ⟨rejection, hrejection, error, herror, hsite, ?_⟩
  rw [hissue, hsite]
  decide +kernel

end Fragment

end NestedRecords
