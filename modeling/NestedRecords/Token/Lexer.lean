import NestedRecords.Token
import NestedRecords.Text.Class

/-!
# Lexing

The lexer skips white space and commas, then takes the longest token at hand. Within an entry
only spaces and tabs may stand around the `=` and the `:`, so an entry never runs over a line
end; a word that is not followed by a complete `= word : word` or `: word` is a type alone.

`Fragment.lex` returns the tokens and the fragment at which no token starts. That fragment is
empty when the whole text was read, and otherwise begins with the character to complain about.
-/

namespace NestedRecords

open CodeUnit

namespace Fragment

/-! ### Tokens at the start of a fragment -/

/-- The word at the start of a fragment and what follows it. -/
def word? (f : Fragment) : Option (Fragment × Fragment) :=
  if (f.takeWhile isWord).text = [] then none
  else some (f.takeWhile isWord, f.dropWhile isWord)

/-- What follows a mark and the gaps around it. -/
def afterMark? (mark : Char) (f : Fragment) : Option Fragment :=
  let atMark := f.dropWhile isGap
  if atMark.text.head? = some (ofChar mark) then some ((atMark.drop 1).dropWhile isGap)
  else none

/-- The word behind a mark and what follows it. -/
def markedWord? (mark : Char) (f : Fragment) : Option (Fragment × Fragment) :=
  (f.afterMark? mark).bind word?

/-- The entry that begins with the word `first`, where `rest` follows that word. -/
def wordEntry (first rest : Fragment) : Token × Fragment :=
  match rest.markedWord? '=' with
  | some (newName, rest') =>
    match rest'.markedWord? ':' with
    | some (type, rest'') => (.renamed first newName type, rest'')
    | none => (.lone first, rest)
  | none =>
    match rest.markedWord? ':' with
    | some (type, rest') => (.attribute first type, rest')
    | none => (.lone first, rest)

/-- The token at the start of a fragment and what follows it. -/
def token? (f : Fragment) : Option (Token × Fragment) :=
  match f.word? with
  | some (first, rest) => some (wordEntry first rest)
  | none =>
    match f.text.head? with
    | some u =>
      if u.isOpening then some (.opening (f.take 1), f.drop 1)
      else if u.isClosing then some (.closing (f.take 1), f.drop 1)
      else none
    | none => none

/-! ### Every token takes some text -/

theorem length_of_word? {f w rest : Fragment} (h : f.word? = some (w, rest)) :
    rest.text.length < f.text.length := by
  unfold word? at h
  split at h
  · contradiction
  · rename_i hne
    obtain ⟨rfl, rfl⟩ := Prod.mk.inj (Option.some.inj h)
    have happ : (f.text.takeWhile isWord).length + (f.text.dropWhile isWord).length =
        f.text.length := by
      rw [← List.length_append, List.takeWhile_append_dropWhile]
    have hpos : 0 < (f.text.takeWhile isWord).length := List.length_pos_iff.2 hne
    simp only [dropWhile]
    omega

theorem length_of_afterMark? {f rest : Fragment} {mark : Char}
    (h : f.afterMark? mark = some rest) : rest.text.length ≤ f.text.length := by
  simp only [afterMark?] at h
  split at h
  · obtain rfl := Option.some.inj h
    refine Nat.le_trans (length_dropWhile_le _ _) (Nat.le_trans ?_ (length_dropWhile_le isGap f))
    simp [drop]
  · contradiction

theorem length_of_markedWord? {f w rest : Fragment} {mark : Char}
    (h : f.markedWord? mark = some (w, rest)) : rest.text.length < f.text.length := by
  obtain ⟨g, hg, hw⟩ := Option.bind_eq_some_iff.1 h
  exact Nat.lt_of_lt_of_le (length_of_word? hw) (length_of_afterMark? hg)

theorem length_wordEntry_le (first rest : Fragment) :
    (wordEntry first rest).2.text.length ≤ rest.text.length := by
  unfold wordEntry
  split
  · rename_i hnew
    split
    · rename_i htype
      exact Nat.le_of_lt (Nat.lt_trans (length_of_markedWord? htype) (length_of_markedWord? hnew))
    · exact Nat.le_refl _
  · split
    · rename_i htype
      exact Nat.le_of_lt (length_of_markedWord? htype)
    · exact Nat.le_refl _

theorem length_of_token? {f rest : Fragment} {t : Token} (h : f.token? = some (t, rest)) :
    rest.text.length < f.text.length := by
  unfold token? at h
  split at h
  · rename_i first behind hword
    have hrest : (wordEntry first behind).2 = rest := congrArg Prod.snd (Option.some.inj h)
    exact hrest ▸ Nat.lt_of_le_of_lt (length_wordEntry_le first behind) (length_of_word? hword)
  · split at h
    · rename_i u hhead
      have hdrop : (f.drop 1).text.length < f.text.length := by
        cases htext : f.text with
        | nil => simp [htext] at hhead
        | cons v r => simp [drop, htext]
      split at h
      · obtain ⟨-, rfl⟩ := Prod.mk.inj (Option.some.inj h); exact hdrop
      · split at h
        · obtain ⟨-, rfl⟩ := Prod.mk.inj (Option.some.inj h); exact hdrop
        · contradiction
    · contradiction

/-! ### Whole texts -/

/-- The tokens of a fragment, and the fragment at which no further token starts. -/
def lex (f : Fragment) : List Token × Fragment :=
  match _h : (f.dropWhile isFiller).token? with
  | some (t, rest) => (t :: rest.lex.1, rest.lex.2)
  | none => ([], f.dropWhile isFiller)
termination_by f.text.length
decreasing_by
  all_goals
    exact Nat.lt_of_lt_of_le (length_of_token? _h) (length_dropWhile_le isFiller f)

end Fragment

end NestedRecords
