import Mathlib.Data.List.Chain
import NestedRecords.Proofs.Schema.Acceptance
import NestedRecords.Proofs.Token.Words

/-!
# Rendering tokens

`Laid` says which texts spell a list of lexemes, and says it as a parser would want it, from the
front of a text to its end. A `Rendering` says it as a printer would: the lexemes are spelled one by
one, something is put in front of each of them and behind the last one, and where two words would
touch this is not empty. Both say the same (`Rendering.laid`, `Laid.exists_rendering`).

So whatever a printer puts between lexemes, and within an entry around its marks, the lexer gives
back the lexemes (`Fragment.readsAs_rendering`); and there is no text besides that the lexer would
read to its end (`Fragment.readsAs_iff`).
-/

namespace NestedRecords

/-! ### Renderings -/

/-- A lexeme as it is spelled, and the filler in front of it. -/
structure Chunk where
  gap : Text
  lexeme : Lexeme
  written : Text
  gap_isFiller : gap.IsFiller
  spells : lexeme.Written written

/-- The text of a filler and a lexeme. -/
def Chunk.text (c : Chunk) : Text := c.gap ++ c.written

/-- The words at the end of one lexeme and at the beginning of the next one do not touch. An entry
begins and ends in a word; a bracket has none. -/
def Chunk.Apart (c d : Chunk) : Prop :=
  c.lexeme.endsInWord = true → d.lexeme.endsInWord = true → d.gap ≠ []

/-- **Renderings.** Lexemes as they are spelled in order, with fillers in front of them and behind
the last one, where a filler stands between any two words. -/
structure Rendering where
  chunks : List Chunk
  last : Text
  last_isFiller : last.IsFiller
  apart : chunks.IsChain Chunk.Apart

namespace Rendering

/-- What is rendered. -/
def lexemes (r : Rendering) : List Lexeme := r.chunks.map Chunk.lexeme

/-- The rendered text. -/
def text (r : Rendering) : Text := r.chunks.flatMap Chunk.text ++ r.last

end Rendering

/-! ### Renderings are layouts -/

/-- A chunk begins with a word unless its lexeme has none or a filler is in front of it. -/
theorem Chunk.head_text_append_iff (c : Chunk) (more : Text) :
    (∀ u ∈ (c.text ++ more).head?, u.isWord = false) ↔
      (c.lexeme.endsInWord = true → c.gap ≠ []) := by
  obtain ⟨v, written, hwritten, -, hv⟩ := c.spells.exists_head
  rw [Chunk.text]
  cases hgap : c.gap with
  | nil => simp [hwritten, hv]
  | cons u gap =>
    have hu : u.isFiller = true := c.gap_isFiller u (hgap ▸ List.mem_cons_self)
    simp [CodeUnit.isWord_eq_false_of_isFiller hu]

/-- A word touches the chunks behind it where it touches the first one of them. -/
private theorem forall_apart_iff {chunks : List Chunk} {last : Text} (hlast : last.IsFiller)
    (c : Chunk) : (∀ d ∈ chunks.head?, c.Apart d) ↔ (c.lexeme.endsInWord = true →
      ∀ u ∈ (chunks.flatMap Chunk.text ++ last).head?, u.isWord = false) := by
  cases chunks with
  | nil =>
    refine iff_of_true nofun fun _ u hu => CodeUnit.isWord_eq_false_of_isFiller (hlast u ?_)
    exact List.mem_of_mem_head? hu
  | cons d rest =>
    rw [List.flatMap_cons, List.append_assoc, d.head_text_append_iff]
    simp [Chunk.Apart]

/-- Chunks with fillers between their words, and a filler behind them, are a layout. -/
private theorem laid_chunks {last : Text} (hlast : last.IsFiller) : ∀ {chunks : List Chunk},
    chunks.IsChain Chunk.Apart →
    Laid (chunks.map Chunk.lexeme) (chunks.flatMap Chunk.text ++ last)
  | [], _ => .nil hlast
  | c :: rest, h => by
    obtain ⟨hfirst, hrest⟩ := List.isChain_cons.mp h
    rw [List.flatMap_cons, Chunk.text, List.append_assoc, List.append_assoc]
    exact .cons c.gap_isFiller c.spells ((forall_apart_iff hlast c).mp hfirst)
      (laid_chunks hlast hrest)

/-- A rendered text spells what is rendered. -/
theorem Rendering.laid (r : Rendering) : Laid r.lexemes r.text :=
  laid_chunks r.last_isFiller r.apart

/-- Every text that spells some lexemes is rendered from them. -/
theorem Laid.exists_rendering {lexemes : List Lexeme} {text : Text} (h : Laid lexemes text) :
    ∃ r : Rendering, r.lexemes = lexemes ∧ r.text = text := by
  induction h with
  | @nil gap hgap => exact ⟨⟨[], gap, hgap, .nil⟩, rfl, rfl⟩
  | @cons gap written rest lexeme lexemes hgap hwritten apart _ ih =>
    obtain ⟨r, rfl, rfl⟩ := ih
    have hfirst :=
      (forall_apart_iff r.last_isFiller ⟨gap, lexeme, written, hgap, hwritten⟩).mpr apart
    refine ⟨⟨⟨gap, lexeme, written, hgap, hwritten⟩ :: r.chunks, r.last, r.last_isFiller,
      List.isChain_cons.mpr ⟨hfirst, r.apart⟩⟩, rfl, ?_⟩
    simp [Rendering.text, Chunk.text]

/-! ### Reading renderings -/

namespace Fragment

/-- The fragment is read to its end, as the given lexemes. -/
def ReadsAs (f : Fragment) (lexemes : List Lexeme) : Prop :=
  f.tokens.2 = none ∧ f.tokens.1.map Token.lexeme = lexemes

instance (f : Fragment) (lexemes : List Lexeme) : Decidable (f.ReadsAs lexemes) :=
  inferInstanceAs (Decidable (_ ∧ _))

/-- What is read to its end are the layouts. -/
theorem readsAs_iff_laid {f : Fragment} {lexemes : List Lexeme} :
    f.ReadsAs lexemes ↔ Laid lexemes f.text := by
  rw [ReadsAs, tokens_snd_eq_none_iff]
  constructor
  · rintro ⟨hend, rfl⟩
    exact f.laid_of_lex hend
  · intro hlaid
    obtain ⟨hlexemes, hend⟩ := lex_of_laid hlaid rfl
    exact ⟨hend, hlexemes⟩

/-- **Lexing undoes rendering.** A rendered text is read to its end and as what is rendered,
wherever it starts, and also as a source text, where its line endings are unified first. -/
theorem readsAs_rendering (r : Rendering) :
    (∀ start : Position, ReadsAs ⟨r.text, start⟩ r.lexemes) ∧
      (ofSource r.text).ReadsAs r.lexemes :=
  ⟨fun _ => readsAs_iff_laid.mpr r.laid, readsAs_iff_laid.mpr r.laid.unifyLineEndings⟩

/-- **What the lexer reads.** The texts that are read to their end are the rendered ones. -/
theorem readsAs_iff {f : Fragment} {lexemes : List Lexeme} :
    f.ReadsAs lexemes ↔ ∃ r : Rendering, r.lexemes = lexemes ∧ r.text = f.text := by
  rw [readsAs_iff_laid]
  constructor
  · exact Laid.exists_rendering
  · rintro ⟨r, rfl, htext⟩
    exact htext ▸ r.laid

-- a line ending keeps two words apart that would else be one, and no filler is needed at brackets
example : ∃ r : Rendering, r.lexemes =
    [.renamed (Text.ofString "a") (Text.ofString "b") (Text.ofString "Int8"),
      .lone (Text.ofString "List"), .opening (Text.ofString "["), .lone (Text.ofString "Utf8"),
      .closing (Text.ofString "]")] ∧ r.text = Text.ofString "a =\tb:Int8\r\nList[Utf8,]" :=
  readsAs_iff (f := ⟨Text.ofString "a =\tb:Int8\r\nList[Utf8,]", .origin⟩).mp (by decide +kernel)

end Fragment

end NestedRecords
