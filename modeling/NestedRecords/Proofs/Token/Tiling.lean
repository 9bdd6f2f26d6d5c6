import NestedRecords.Proofs.Token.Layout

/-!
# Tokens as tiles of a text

The lexer goes through a fragment from its front. It skips some text, reads a part of a token, skips
the mark behind it, reads the next part, and so on, and at each of these steps it keeps the text
that is left together with its place. `Fragment.Skips` and `Fragment.Yields` are the two kinds of
steps. Put together they say what one token takes from a fragment (`Fragment.BeginsWith`) and what a
list of tokens does (`Fragment.Tiles`): nothing is left out between the tiles but marks within a
token and fillers between tokens.

`Fragment.lex_tiles` is the run lemma. The places of the parts and the texts that spell the tokens
are read off the tiling.
-/

namespace NestedRecords

open CodeUnit

namespace Fragment

variable {f g w rest : Fragment} {s t : Text}

/-! ### Steps through a fragment -/

/-- **Skipping.** The fragment begins with a text, and this is what is left of it behind the
text. -/
structure Skips (f : Fragment) (t : Text) (rest : Fragment) : Prop where
  text : f.text = t ++ rest.text
  start : rest.start = f.start.after t

namespace Skips

theorem refl (f : Fragment) : f.Skips [] f := ⟨rfl, rfl⟩

theorem trans (h : f.Skips s g) (h' : g.Skips t rest) : f.Skips (s ++ t) rest where
  text := by rw [h.text, h'.text, List.append_assoc]
  start := by rw [h'.start, h.start, Position.after_append]

theorem eq_drop (h : f.Skips t rest) : rest = f.drop t.length := by
  rw [drop, h.text, List.drop_left, List.take_left, ← h.start]

theorem offset (h : f.Skips t rest) : rest.start.offset = f.start.offset + t.length := by
  rw [h.start, Position.offset_after]

end Skips

theorem skips_drop (f : Fragment) (count : Nat) : f.Skips (f.text.take count) (f.drop count) :=
  ⟨(List.take_append_drop _ _).symm, rfl⟩

theorem skips_dropWhile (p : CodeUnit → Bool) (f : Fragment) :
    f.Skips (f.text.takeWhile p) (f.dropWhile p) :=
  ⟨List.takeWhile_append_dropWhile.symm, rfl⟩

/-- **Yielding.** The fragment begins with a part, and this is what is left of it behind the
part. -/
structure Yields (f part rest : Fragment) : Prop where
  start : part.start = f.start
  skips : f.Skips part.text rest

/-- The part is a word, which is read to its end. -/
structure YieldsWord (f word rest : Fragment) : Prop extends f.Yields word rest where
  isWord : word.text.IsWord
  ends : ∀ u ∈ rest.text.head?, u.isWord = false

/-- The part is a word behind a mark. -/
def YieldsMarked (f : Fragment) (mark : Char) (word rest : Fragment) : Prop :=
  ∃ marked g, Text.IsMark mark marked ∧ f.Skips marked g ∧ g.YieldsWord word rest

/-- **One token.** The fragment begins with the parts of a token, which have the marks of the token
between them, and this is what is left of it behind the token. -/
inductive BeginsWith : Fragment → Token → Fragment → Prop
  | renamed {f g h name newName type rest : Fragment} (hname : f.YieldsWord name g)
    (hnew : g.YieldsMarked '=' newName h) (htype : h.YieldsMarked ':' type rest) :
    BeginsWith f (.renamed name newName type) rest
  | attribute {f g name type rest : Fragment} (hname : f.YieldsWord name g)
    (htype : g.YieldsMarked ':' type rest) : BeginsWith f (.attribute name type) rest
  | lone {f type rest : Fragment} (htype : f.YieldsWord type rest) : BeginsWith f (.lone type) rest
  | opening {f delimiter rest : Fragment} {u : CodeUnit} (hu : u.isOpening = true)
    (htext : delimiter.text = [u]) (h : f.Yields delimiter rest) :
    BeginsWith f (.opening delimiter) rest
  | closing {f delimiter rest : Fragment} {u : CodeUnit} (hu : u.isClosing = true)
    (htext : delimiter.text = [u]) (h : f.Yields delimiter rest) :
    BeginsWith f (.closing delimiter) rest

/-- **Tiles.** The tokens cover the fragment in order, up to fillers in front of each of them and
behind the last one, and this is what is left of it. -/
inductive Tiles : Fragment → List Token → Fragment → Prop
  | nil {f rest : Fragment} {gap : Text} (hgap : gap.IsFiller) (hskips : f.Skips gap rest) :
    Tiles f [] rest
  | cons {f g behind rest : Fragment} {gap : Text} {token : Token} {tokens : List Token}
    (hgap : gap.IsFiller) (hskips : f.Skips gap g) (hbegins : g.BeginsWith token behind)
    (htiles : Tiles behind tokens rest) : Tiles f (token :: tokens) rest

/-! ### What the lexer reads -/

/-- Behind a run stands nothing, or a unit of another class. -/
theorem head_dropWhile {p : CodeUnit → Bool} (f : Fragment) :
    ∀ u ∈ (f.dropWhile p).text.head?, p u = false := by
  intro u hu
  have hstop := List.head?_dropWhile_not p f.text
  rw [dropWhile] at hu
  rw [hu] at hstop
  simpa using hstop

theorem isFiller_takeWhile (t : Text) : Text.IsFiller (t.takeWhile isFiller) := fun _ hu =>
  List.all_eq_true.mp List.all_takeWhile _ hu

theorem yieldsWord_of_word? (h : f.word? = some (w, rest)) : f.YieldsWord w rest := by
  unfold word? at h
  split at h
  · contradiction
  · rename_i hne
    obtain ⟨rfl, rfl⟩ := Prod.mk.inj (Option.some.inj h)
    exact
      { start := rfl
        skips := skips_dropWhile isWord f
        isWord := ⟨hne, fun u hu => List.all_eq_true.mp List.all_takeWhile u hu⟩
        ends := f.head_dropWhile }

theorem yieldsMarked_of_markedWord? {mark : Char} (h : f.markedWord? mark = some (w, rest)) :
    f.YieldsMarked mark w rest := by
  obtain ⟨behind, hbehind, hword⟩ := Option.bind_eq_some_iff.mp h
  simp only [afterMark?] at hbehind
  split at hbehind
  · rename_i hmark
    obtain rfl := Option.some.inj hbehind
    have hgaps : ∀ t : Text, Text.IsGap (t.takeWhile isGap) := fun t u hu =>
      List.all_eq_true.mp List.all_takeWhile u hu
    have hone : (f.dropWhile isGap).text.take 1 = [ofChar mark] := by
      obtain ⟨more, hmore⟩ := List.head?_eq_some_iff.mp hmark
      rw [hmore]
      rfl
    have hskips := (skips_drop (f.dropWhile isGap) 1).trans (skips_dropWhile isGap _)
    rw [hone] at hskips
    exact ⟨_, _, .mk (hgaps f.text) (hgaps _), (skips_dropWhile isGap f).trans hskips,
      yieldsWord_of_word? hword⟩
  · contradiction

/-- An entry that begins with a given word. -/
theorem beginsWith_wordEntry (h : f.YieldsWord w rest) :
    f.BeginsWith (wordEntry w rest).1 (wordEntry w rest).2 := by
  unfold wordEntry
  split
  · rename_i hnew
    split
    · rename_i htype
      exact .renamed h (yieldsMarked_of_markedWord? hnew) (yieldsMarked_of_markedWord? htype)
    · exact .lone h
  · split
    · rename_i htype
      exact .attribute h (yieldsMarked_of_markedWord? htype)
    · exact .lone h

/-- **Step lemma.** The token at the start of a fragment is what the fragment begins with. -/
theorem beginsWith_of_token? {token : Token} (h : f.token? = some (token, rest)) :
    f.BeginsWith token rest := by
  unfold token? at h
  split at h
  · rename_i hword
    have hentry := beginsWith_wordEntry (yieldsWord_of_word? hword)
    rwa [Option.some.inj h] at hentry
  · split at h
    · rename_i u hhead
      have hone : (f.take 1).text = [u] := by
        obtain ⟨more, hmore⟩ := List.head?_eq_some_iff.mp hhead
        rw [take, hmore]
        rfl
      have hyields : f.Yields (f.take 1) (f.drop 1) := ⟨rfl, f.skips_drop 1⟩
      split at h
      · rename_i hu
        obtain ⟨rfl, rfl⟩ := Prod.mk.inj (Option.some.inj h)
        exact .opening hu hone hyields
      · split at h
        · rename_i hu
          obtain ⟨rfl, rfl⟩ := Prod.mk.inj (Option.some.inj h)
          exact .closing hu hone hyields
        · contradiction
    · contradiction

/-- **Run lemma.** The tokens of a fragment tile it, up to where no token starts. -/
theorem lex_tiles (f : Fragment) : f.Tiles f.lex.1 f.lex.2 := by
  fun_induction lex f with
  | case1 f token rest h ih =>
    exact .cons (isFiller_takeWhile f.text) (skips_dropWhile isFiller f) (beginsWith_of_token? h) ih
  | case2 f h => exact .nil (isFiller_takeWhile f.text) (skips_dropWhile isFiller f)

end Fragment

end NestedRecords
