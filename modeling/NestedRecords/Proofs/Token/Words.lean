import NestedRecords.Proofs.Schema.Grammar
import NestedRecords.Proofs.Token.Tiling

/-!
# Tokens of a text

What the lexer takes for a token can be written down again: its names and types are words, and
its delimiters are brackets (`Fragment.exists_written_of_mem_lex`). In particular the name of an
entry is an identifier.

More than that, the tokens can be written down where they were read. A text that lexes to its end
is a layout of its lexemes (`Fragment.laid_of_lex`), so layouts are all the texts that lex. Both are
read off the tiles of a text.
-/

namespace NestedRecords

open CodeUnit

namespace Fragment

variable {f w rest : Fragment} {token : Token} {tokens : List Token}

/-! ### Tiles -/

theorem YieldsMarked.exists_text {mark : Char} (h : f.YieldsMarked mark w rest) :
    ∃ marked : Text, marked.IsMark mark ∧ f.text = marked ++ (w.text ++ rest.text) := by
  obtain ⟨marked, g, hmark, hskips, hword⟩ := h
  exact ⟨marked, hmark, by rw [hskips.text, hword.skips.text]⟩

theorem YieldsMarked.isWord {mark : Char} (h : f.YieldsMarked mark w rest) :
    w.text.IsWord ∧ ∀ u ∈ rest.text.head?, u.isWord = false := by
  obtain ⟨_, _, _, _, hword⟩ := h
  exact ⟨hword.isWord, hword.ends⟩

/-- **Spelling one token.** A token is spelled by what a fragment begins with, and a word at its end
is read whole. -/
theorem BeginsWith.exists_written (h : f.BeginsWith token rest) :
    ∃ written, token.lexeme.Written written ∧ f.text = written ++ rest.text ∧
      (token.lexeme.endsInWord = true → ∀ u ∈ rest.text.head?, u.isWord = false) := by
  cases h with
  | renamed hname hnew htype =>
    obtain ⟨equals, hequals, hsplit⟩ := hnew.exists_text
    obtain ⟨colon, hcolon, hsplit'⟩ := htype.exists_text
    refine ⟨_, .renamed hname.isWord hequals hnew.isWord.1 hcolon htype.isWord.1, ?_, fun _ =>
      htype.isWord.2⟩
    rw [hname.skips.text, hsplit, hsplit']
    simp only [List.append_assoc]
  | «attribute» hname htype =>
    obtain ⟨colon, hcolon, hsplit⟩ := htype.exists_text
    refine ⟨_, .attribute hname.isWord hcolon htype.isWord.1, ?_, fun _ => htype.isWord.2⟩
    rw [hname.skips.text, hsplit]
    simp only [List.append_assoc]
  | lone htype => exact ⟨_, .lone htype.isWord, htype.skips.text, fun _ => htype.ends⟩
  | opening hu htext hyields =>
    rw [Token.lexeme, htext]
    exact ⟨_, .opening hu, htext ▸ hyields.skips.text, fun hends =>
      absurd hends Bool.false_ne_true⟩
  | closing hu htext hyields =>
    rw [Token.lexeme, htext]
    exact ⟨_, .closing hu, htext ▸ hyields.skips.text, fun hends =>
      absurd hends Bool.false_ne_true⟩

/-- Every token of a tiling is spelled by some text. -/
theorem Tiles.exists_written (h : f.Tiles tokens rest) :
    ∀ token ∈ tokens, ∃ text, token.lexeme.Written text := by
  induction h with
  | nil => exact fun _ hmem => absurd hmem List.not_mem_nil
  | cons _ _ hbegins _ ih =>
    obtain ⟨written, hwritten, -⟩ := hbegins.exists_written
    exact List.forall_mem_cons.mpr ⟨⟨written, hwritten⟩, ih⟩

/-- Tiles that leave nothing over are a layout. -/
theorem Tiles.laid (h : f.Tiles tokens rest) (hend : rest.text = []) :
    Laid (tokens.map Token.lexeme) f.text := by
  induction h with
  | nil hgap hskips =>
    rw [hskips.text, hend, List.append_nil]
    exact .nil hgap
  | cons hgap hskips hbegins _ ih =>
    obtain ⟨written, hwritten, hsplit, apart⟩ := hbegins.exists_written
    rw [hskips.text, hsplit]
    exact .cons hgap hwritten apart (ih hend)

/-! ### The tokens that are read -/

/-- **Tokens can be written down.** Every token of a text is spelled by some text. -/
theorem exists_written_of_mem_lex (f : Fragment) :
    ∀ token ∈ f.lex.1, ∃ text, token.lexeme.Written text :=
  f.lex_tiles.exists_written

/-- **A text is a layout of its tokens.** If a text lexes to its end, it spells its lexemes in
order, with nothing but fillers between them. -/
theorem laid_of_lex (f : Fragment) (h : f.lex.2.text = []) :
    Laid (f.lex.1.map Token.lexeme) f.text :=
  f.lex_tiles.laid h

end Fragment

/-- The name of a token that can be written down is an identifier. -/
theorem Token.isIdentifier_name {token : Token} (h : ∃ text, token.lexeme.Written text)
    {name newName : Option String} {type : Fragment} (head : token.Introduces name newName type) :
    ∀ n ∈ name, IsIdentifier n := by
  obtain ⟨text, h⟩ := h
  rintro n hn
  cases head with
  | renamed first =>
    obtain rfl := Option.some.inj hn
    cases h with
    | renamed hname => exact hname.isIdentifier
  | named first =>
    obtain rfl := Option.some.inj hn
    cases h with
    | «attribute» hname => exact hname.isIdentifier
  | lone => contradiction

/-- No token of a text has an empty name. -/
theorem Fragment.named_of_mem_lex (f : Fragment) : ∀ token ∈ f.lex.1, token.Named := by
  rintro token hmem _ _ _ head rfl
  exact (Token.isIdentifier_name (f.exists_written_of_mem_lex token hmem) head "" rfl).1 rfl

end NestedRecords
