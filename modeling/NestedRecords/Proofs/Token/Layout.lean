import NestedRecords.Proofs.Text.Words
import NestedRecords.Token.Lexer

/-!
# Laying tokens out

A `Lexeme` is what a token says without where it stands. `Lexeme.Written` are the texts that spell
a single lexeme, and `Laid` are the texts that spell a list of them, with fillers anywhere between
them. Only a word that follows another word needs a filler in front of it.

`Fragment.lex_of_laid` is the reason for these rules: a text that is laid out lexes to its end, and
gives the lexemes it was made of. Rules for tokens are tried in an order, so an entry has to be kept
from running on into the next one. What follows an entry, gaps aside, is never one of the marks
that would continue it (`Laid.head_dropWhile_isGap`).

A text stays laid out when its line endings are unified (`Laid.unifyLineEndings`).
-/

namespace NestedRecords

open CodeUnit

/-- A token without its place: its kind and the texts of its parts. -/
inductive Lexeme
  | renamed (name newName type : Text)
  | attribute (name type : Text)
  | lone (type : Text)
  | opening (delimiter : Text)
  | closing (delimiter : Text)
  deriving DecidableEq, Repr

/-- What a token says. -/
def Token.lexeme : Token → Lexeme
  | .renamed name newName type => .renamed name.text newName.text type.text
  | .attribute name type => .attribute name.text type.text
  | .lone type => .lone type.text
  | .opening delimiter => .opening delimiter.text
  | .closing delimiter => .closing delimiter.text

/-- Tokens whose lexemes are those of a container and what follows it. -/
theorem Token.exists_container_of_lexemes {tokens : List Token} {head : Lexeme}
    {opening closing : Text} {content more : List Lexeme} (h : tokens.map Token.lexeme =
      head :: .opening opening :: (content ++ .closing closing :: more)) :
    ∃ token bracket inner bracket' rest,
      tokens = token :: .opening bracket :: (inner ++ .closing bracket' :: rest) ∧
      token.lexeme = head ∧ inner.map Token.lexeme = content ∧ rest.map Token.lexeme = more := by
  obtain ⟨token, behind, rfl, htoken, hbehind⟩ := List.map_eq_cons_iff.mp h
  obtain ⟨first, behind, rfl, hfirst, hbehind⟩ := List.map_eq_cons_iff.mp hbehind
  obtain ⟨inner, behind, rfl, hinner, hbehind⟩ := List.map_eq_append_iff.mp hbehind
  obtain ⟨last, rest, rfl, hlast, hrest⟩ := List.map_eq_cons_iff.mp hbehind
  cases first with
  | opening bracket =>
    cases last with
    | closing bracket' => exact ⟨token, bracket, inner, bracket', rest, rfl, htoken, hinner, hrest⟩
    | renamed | «attribute» | lone | opening => contradiction
  | renamed | «attribute» | lone | closing => contradiction

/-- A mark with gaps around it. -/
inductive Text.IsMark (mark : Char) : Text → Prop
  | mk {before after : Text} (hbefore : before.IsGap) (hafter : after.IsGap) :
    IsMark mark (before ++ ofChar mark :: after)

namespace Lexeme

/-- **Spelling a lexeme.** Names and types are words, and the marks between them may have gaps. -/
inductive Written : Lexeme → Text → Prop
  | renamed {name newName type equals colon : Text} (hname : name.IsWord)
    (hequals : equals.IsMark '=') (hnew : newName.IsWord) (hcolon : colon.IsMark ':')
    (htype : type.IsWord) :
    Written (.renamed name newName type) (name ++ (equals ++ (newName ++ (colon ++ type))))
  | attribute {name type colon : Text} (hname : name.IsWord) (hcolon : colon.IsMark ':')
    (htype : type.IsWord) : Written (.attribute name type) (name ++ (colon ++ type))
  | lone {type : Text} (htype : type.IsWord) : Written (.lone type) type
  | opening {u : CodeUnit} (h : u.isOpening = true) : Written (.opening [u]) [u]
  | closing {u : CodeUnit} (h : u.isClosing = true) : Written (.closing [u]) [u]

/-- Whether the text of a lexeme ends in a word, which a further word would make longer. -/
def endsInWord : Lexeme → Bool
  | .renamed _ _ _ | .attribute _ _ | .lone _ => true
  | .opening _ | .closing _ => false

end Lexeme

/-! ### Where a lexeme begins -/

theorem Text.IsWord.exists_cons {w : Text} (h : w.IsWord) :
    ∃ u rest, w = u :: rest ∧ u.isWord = true := by
  obtain ⟨hne, hunits⟩ := h
  obtain ⟨u, rest, rfl⟩ := List.exists_cons_of_ne_nil hne
  exact ⟨u, rest, rfl, hunits u List.mem_cons_self⟩

/-- The text of a lexeme begins where a token may begin, and it begins in a word if it ends in
one. -/
theorem Lexeme.Written.exists_head {lexeme : Lexeme} {written : Text}
    (h : lexeme.Written written) :
    ∃ u rest, written = u :: rest ∧ u.isStart = true ∧ u.isWord = lexeme.endsInWord := by
  have hword : ∀ {w : Text} (more : Text), w.IsWord →
      ∃ u rest, w ++ more = u :: rest ∧ u.isStart = true ∧ u.isWord = true := by
    intro w more hw
    obtain ⟨u, rest, rfl, hu⟩ := hw.exists_cons
    exact ⟨u, rest ++ more, rfl, isStart_iff.mpr (.inl hu), hu⟩
  cases h with
  | renamed hname => exact hword _ hname
  | «attribute» hname => exact hword _ hname
  | lone htype => simpa [Lexeme.endsInWord] using hword [] htype
  | opening hu =>
    exact ⟨_, [], rfl, isStart_iff.mpr (.inr (.inl hu)), isWord_eq_false_of_isOpening hu⟩
  | closing hu =>
    exact ⟨_, [], rfl, isStart_iff.mpr (.inr (.inr hu)), isWord_eq_false_of_isClosing hu⟩

theorem Lexeme.Written.exists_cons {lexeme : Lexeme} {written : Text}
    (h : lexeme.Written written) : ∃ u rest, written = u :: rest ∧ u.isStart = true := by
  obtain ⟨u, rest, hwritten, hu, -⟩ := h.exists_head
  exact ⟨u, rest, hwritten, hu⟩

/-! ### Layouts -/

/-- **Laying lexemes out.** The text spells the lexemes in order, with fillers in between, and no
word touches the next one. -/
inductive Laid : List Lexeme → Text → Prop
  | nil {gap : Text} (hgap : gap.IsFiller) : Laid [] gap
  | cons {gap written rest : Text} {lexeme : Lexeme} {lexemes : List Lexeme} (hgap : gap.IsFiller)
    (hwritten : lexeme.Written written)
    (apart : lexeme.endsInWord = true → ∀ u ∈ rest.head?, u.isWord = false)
    (behind : Laid lexemes rest) :
    Laid (lexeme :: lexemes) (gap ++ (written ++ rest))

namespace Laid

/-- Fillers may be put in front of a layout. -/
theorem fill {filler text : Text} {lexemes : List Lexeme} (h : Laid lexemes text)
    (hfiller : filler.IsFiller) : Laid lexemes (filler ++ text) := by
  have hfill : ∀ {gap : Text}, gap.IsFiller → (filler ++ gap).IsFiller := fun hgap =>
    List.forall_mem_append.mpr ⟨hfiller, hgap⟩
  cases h with
  | nil hgap => exact .nil (hfill hgap)
  | cons hgap hwritten apart behind =>
    rw [← List.append_assoc]
    exact .cons (hfill hgap) hwritten apart behind

/-- An empty text spells nothing. -/
theorem eq_nil {lexemes : List Lexeme} {text : Text} (h : Laid lexemes text) (htext : text = []) :
    lexemes = [] := by
  cases h with
  | nil => rfl
  | cons _ hwritten _ _ =>
    obtain ⟨u, rest, rfl, -⟩ := hwritten.exists_cons
    simp at htext

/-- One layout behind another, if it does not begin with a word where the first one ends in one. -/
theorem append_of_getLast {lexemes others : List Lexeme} {text more : Text} (h : Laid lexemes text)
    (hmore : Laid others more) (hapart : ∀ lexeme ∈ lexemes.getLast?, lexeme.endsInWord = true →
      ∀ u ∈ more.head?, u.isWord = false) : Laid (lexemes ++ others) (text ++ more) := by
  induction h with
  | nil hgap => exact hmore.fill hgap
  | @cons gap written rest lexeme lexemes hgap hwritten apart behind ih =>
    simp only [List.append_assoc, List.cons_append]
    refine .cons hgap hwritten (fun hends u hu => ?_) (ih fun last hlast => ?_)
    · cases rest with
      | nil =>
        obtain rfl := behind.eq_nil rfl
        exact hapart lexeme rfl hends u hu
      | cons v rest => exact apart hends u (by simpa using hu)
    · rw [List.getLast?_cons, hlast] at hapart
      exact hapart last rfl

/-- One layout behind another, if it does not begin with a word. -/
theorem append {lexemes others : List Lexeme} {text more : Text} (h : Laid lexemes text)
    (hmore : Laid others more) (hapart : ∀ u ∈ more.head?, u.isWord = false) :
    Laid (lexemes ++ others) (text ++ more) :=
  h.append_of_getLast hmore fun _ _ _ => hapart

end Laid

/-! ### What continues an entry -/

/-- The units that continue an entry behind a word. -/
def CodeUnit.isContinuing (u : CodeUnit) : Bool := u == ofChar '=' || u == ofChar ':'

theorem isContinuing_iff {u : CodeUnit} :
    u.isContinuing = true ↔ u.toNat = 61 ∨ u.toNat = 58 := by
  rw [isContinuing, Bool.or_eq_true, beq_iff_eq, beq_iff_eq, eq_ofChar_iff (by decide),
    eq_ofChar_iff (by decide)]
  rfl

theorem isContinuing_eq_false_of_isFiller {u : CodeUnit} (h : u.isFiller = true) :
    u.isContinuing = false := by
  have hrange := toNat_of_isFiller h
  rw [Bool.eq_false_iff, ne_eq, isContinuing_iff]
  omega

theorem isContinuing_eq_false_of_isStart {u : CodeUnit} (h : u.isStart = true) :
    u.isContinuing = false := by
  rw [isStart_iff, isWord_iff, isOpening_iff, isClosing_iff] at h
  rw [Bool.eq_false_iff, ne_eq, isContinuing_iff]
  omega

/-- Behind a filler and gaps stands what stood behind the filler, or some unit of the filler. -/
private theorem head_dropWhile_isGap_append {gap : Text} (hgap : gap.IsFiller) (rest : Text)
    (hrest : ∀ u ∈ (rest.dropWhile isGap).head?, u.isContinuing = false) :
    ∀ u ∈ ((gap ++ rest).dropWhile isGap).head?, u.isContinuing = false := by
  induction gap with
  | nil => exact hrest
  | cons v gap ih =>
    obtain ⟨hv, hgap⟩ := List.forall_mem_cons.mp hgap
    rw [List.cons_append, List.dropWhile_cons]
    split
    · exact ih hgap
    · intro u hu
      obtain rfl : v = u := by simpa using hu
      exact isContinuing_eq_false_of_isFiller hv

/-- Gaps aside, what is laid out does not continue an entry in front of it. -/
theorem Laid.head_dropWhile_isGap {lexemes : List Lexeme} {text : Text} (h : Laid lexemes text) :
    ∀ u ∈ (text.dropWhile isGap).head?, u.isContinuing = false := by
  cases h with
  | nil hgap => simpa using head_dropWhile_isGap_append hgap [] (by simp)
  | cons hgap hwritten _ _ =>
    refine head_dropWhile_isGap_append hgap _ ?_
    obtain ⟨v, more, rfl, hv⟩ := hwritten.exists_cons
    intro u hu
    rw [List.cons_append, List.dropWhile_cons, isGap_eq_false_of_isStart hv] at hu
    obtain rfl : v = u := by simpa using hu
    exact isContinuing_eq_false_of_isStart hv

namespace Fragment

/-! ### Reading the parts of a lexeme -/

variable {f : Fragment} {rest : Text}

/-- Reading one word. -/
theorem word?_of_text {w : Text} (h : f.text = w ++ rest) (hw : w.IsWord)
    (hrest : ∀ u ∈ rest.head?, u.isWord = false) :
    ∃ first behind, f.word? = some (first, behind) ∧ first.text = w ∧ behind.text = rest := by
  have hfirst : (f.takeWhile isWord).text = w := by
    rw [takeWhile, h, takeWhile_append_eq hw.2 hrest]
  have hbehind : (f.dropWhile isWord).text = rest := by
    rw [dropWhile, h, dropWhile_append_eq hw.2 hrest]
  refine ⟨_, _, ?_, hfirst, hbehind⟩
  rw [word?, if_neg (hfirst ▸ hw.1)]

/-- Where no word begins there is none. -/
theorem word?_eq_none (h : ∀ u ∈ f.text.head?, u.isWord = false) : f.word? = none := by
  have hnone : f.text.takeWhile isWord = [] := by
    cases htext : f.text with
    | nil => rfl
    | cons u rest => simp [h u (by simp [htext])]
  rw [word?, takeWhile, if_pos hnone]

/-- Reading the word behind a mark. -/
theorem markedWord?_of_text {mark : Char} {marked w : Text} (h : f.text = marked ++ (w ++ rest))
    (hmarked : marked.IsMark mark) (hmark : (ofChar mark).isGap = false) (hw : w.IsWord)
    (hrest : ∀ u ∈ rest.head?, u.isWord = false) :
    ∃ word behind, f.markedWord? mark = some (word, behind) ∧ word.text = w ∧
      behind.text = rest := by
  obtain ⟨hbefore, hafter⟩ := hmarked
  rename_i before after
  obtain ⟨v, more, hcons, hv⟩ := hw.exists_cons
  have hstart : ∀ u ∈ (w ++ rest).head?, u.isGap = false := by
    intro u hu
    obtain rfl : v = u := by simpa [hcons] using hu
    exact isGap_eq_false_of_isStart (isStart_iff.mpr (.inl hv))
  have hat : (f.dropWhile isGap).text = ofChar mark :: (after ++ (w ++ rest)) := by
    rw [dropWhile, h, List.append_assoc, List.cons_append, dropWhile_append_eq hbefore]
    simpa using hmark
  have hbehind : (((f.dropWhile isGap).drop 1).dropWhile isGap).text = w ++ rest := by
    change ((f.dropWhile isGap).text.drop 1).dropWhile isGap = w ++ rest
    rw [hat]
    exact dropWhile_append_eq hafter hstart
  have hafterMark : f.afterMark? mark =
      some (((f.dropWhile isGap).drop 1).dropWhile isGap) := by
    simp only [afterMark?]
    rw [if_pos (by rw [hat]; rfl)]
  rw [markedWord?, hafterMark]
  exact word?_of_text hbehind hw hrest

/-- Without the mark there is no word behind it. -/
theorem markedWord?_eq_none {mark : Char}
    (h : (f.text.dropWhile isGap).head? ≠ some (ofChar mark)) : f.markedWord? mark = none := by
  have hnone : f.afterMark? mark = none := by
    simp only [afterMark?]
    exact if_neg h
  rw [markedWord?, hnone]
  rfl

/-- A word ends in front of the mark behind it. -/
private theorem isWord_head_of_isMark {mark : Char} {marked : Text} (h : marked.IsMark mark)
    (hmark : (ofChar mark).isWord = false) (more : Text) :
    ∀ u ∈ (marked ++ more).head?, u.isWord = false := by
  obtain ⟨hbefore, -⟩ := h
  rename_i before after
  intro u hu
  cases before with
  | nil =>
    obtain rfl : ofChar mark = u := by simpa using hu
    exact hmark
  | cons v before =>
    obtain rfl : v = u := by simpa using hu
    exact isWord_eq_false_of_isGap (hbefore v List.mem_cons_self)

/-- Behind gaps, where there is a colon there is no equals sign. -/
private theorem head_dropWhile_isGap_of_isMark {marked : Text} (h : marked.IsMark ':')
    (more : Text) : ((marked ++ more).dropWhile isGap).head? ≠ some (ofChar '=') := by
  obtain ⟨hbefore, -⟩ := h
  have hcolon : (ofChar ':').isGap = false := by decide
  rw [List.append_assoc, List.cons_append, dropWhile_append_eq hbefore (by simpa using hcolon)]
  exact fun heq => absurd (Option.some.inj heq) (by decide)

/-- **Reading one lexeme.** The token at the start of a text that spells a lexeme is that lexeme, if
nothing continues it. -/
theorem token?_of_written {lexeme : Lexeme} {written : Text} (h : f.text = written ++ rest)
    (hwritten : lexeme.Written written)
    (apart : lexeme.endsInWord = true → ∀ u ∈ rest.head?, u.isWord = false)
    (stop : ∀ u ∈ (rest.dropWhile isGap).head?, u.isContinuing = false) :
    ∃ token behind, f.token? = some (token, behind) ∧ token.lexeme = lexeme ∧
      behind.text = rest := by
  have hequals : (ofChar '=').isGap = false := by decide
  have hcolon : (ofChar ':').isGap = false := by decide
  have hstop : ∀ mark : Char, (ofChar mark).isContinuing = true →
      (rest.dropWhile isGap).head? ≠ some (ofChar mark) := by
    intro mark hmark heq
    exact absurd (stop _ heq) (by simp [hmark])
  cases hwritten with
  | @renamed name newName type equals colon hname hmark hnew hmark' htype =>
    simp only [List.append_assoc] at h
    obtain ⟨first, behind, hword, hfirst, hbehind⟩ :=
      word?_of_text h hname (isWord_head_of_isMark hmark (by decide) _)
    obtain ⟨second, behind', hsecond, hnewName, hbehind'⟩ :=
      markedWord?_of_text hbehind hmark hequals hnew (isWord_head_of_isMark hmark' (by decide) _)
    obtain ⟨third, last, hthird, htypeName, hlast⟩ :=
      markedWord?_of_text hbehind' hmark' hcolon htype (apart rfl)
    refine ⟨.renamed first second third, last, ?_, ?_, hlast⟩
    · rw [token?, hword]
      simp only [wordEntry, hsecond, hthird]
    · rw [Token.lexeme, hfirst, hnewName, htypeName]
  | @«attribute» name type colon hname hmark htype =>
    simp only [List.append_assoc] at h
    obtain ⟨first, behind, hword, hfirst, hbehind⟩ :=
      word?_of_text h hname (isWord_head_of_isMark hmark (by decide) _)
    obtain ⟨second, last, hsecond, htypeName, hlast⟩ :=
      markedWord?_of_text hbehind hmark hcolon htype (apart rfl)
    have hnone : behind.markedWord? '=' = none :=
      markedWord?_eq_none (by rw [hbehind]; exact head_dropWhile_isGap_of_isMark hmark _)
    refine ⟨.attribute first second, last, ?_, ?_, hlast⟩
    · rw [token?, hword]
      simp only [wordEntry, hnone, hsecond]
    · rw [Token.lexeme, hfirst, htypeName]
  | lone htype =>
    obtain ⟨first, behind, hword, hfirst, hbehind⟩ := word?_of_text h htype (apart rfl)
    have hnone : ∀ mark, (ofChar mark).isContinuing = true → behind.markedWord? mark = none :=
      fun mark hmark => markedWord?_eq_none (by rw [hbehind]; exact hstop mark hmark)
    refine ⟨.lone first, behind, ?_, ?_, hbehind⟩
    · rw [token?, hword]
      simp only [wordEntry, hnone '=' (by decide), hnone ':' (by decide)]
    · rw [Token.lexeme, hfirst]
  | @opening u hu =>
    have hword : f.word? = none := word?_eq_none (by
      simpa [h] using isWord_eq_false_of_isOpening hu)
    refine ⟨.opening (f.take 1), f.drop 1, ?_, ?_, ?_⟩
    · simp [token?, hword, h, hu]
    · simp [Token.lexeme, take, h]
    · simp [h]
  | @closing u hu =>
    have hword : f.word? = none := word?_eq_none (by
      simpa [h] using isWord_eq_false_of_isClosing hu)
    refine ⟨.closing (f.take 1), f.drop 1, ?_, ?_, ?_⟩
    · simp [token?, hword, h, hu, isOpening_eq_false_of_isClosing hu]
    · simp [Token.lexeme, take, h]
    · simp [h]

/-! ### Reading a layout -/

theorem lex_of_token? {token : Token} {behind : Fragment}
    (h : (f.dropWhile isFiller).token? = some (token, behind)) :
    f.lex = (token :: behind.lex.1, behind.lex.2) := by
  rw [lex]
  split
  · rename_i token' behind' h'
    obtain ⟨rfl, rfl⟩ := Prod.mk.inj (Option.some.inj (h.symm.trans h'))
    rfl
  · rename_i h'
    rw [h] at h'
    contradiction

theorem lex_of_token?_eq_none (h : (f.dropWhile isFiller).token? = none) :
    f.lex = ([], f.dropWhile isFiller) := by
  rw [lex]
  split
  · rename_i h'
    rw [h] at h'
    contradiction
  · rfl

/-- **Lexing undoes laying out.** A text that spells some lexemes is read to its end, and as these
lexemes. -/
theorem lex_of_laid {lexemes : List Lexeme} {text : Text} (h : Laid lexemes text) :
    ∀ {f : Fragment}, f.text = text → f.lex.1.map Token.lexeme = lexemes ∧ f.lex.2.text = [] := by
  induction h with
  | @nil gap hgap =>
    intro f htext
    have hempty : (f.dropWhile isFiller).text = [] := by
      rw [dropWhile, htext]
      have hall : (gap ++ []).dropWhile isFiller = [] := dropWhile_append_eq hgap (by simp)
      rwa [List.append_nil] at hall
    have hnone : (f.dropWhile isFiller).token? = none := by
      simp [token?, word?_eq_none (f := f.dropWhile isFiller) (by simp [hempty]), hempty]
    rw [lex_of_token?_eq_none hnone]
    exact ⟨rfl, hempty⟩
  | @cons gap written rest lexeme lexemes hgap hwritten apart behind ih =>
    intro f htext
    obtain ⟨v, more, hcons, hv⟩ := hwritten.exists_cons
    have hstart : (f.dropWhile isFiller).text = written ++ rest := by
      rw [dropWhile, htext, dropWhile_append_eq hgap]
      simpa [hcons] using isFiller_eq_false_of_isStart hv
    obtain ⟨token, last, htoken, hlexeme, hlast⟩ :=
      token?_of_written hstart hwritten apart behind.head_dropWhile_isGap
    obtain ⟨hlexemes, hend⟩ := ih hlast
    rw [lex_of_token? htoken]
    exact ⟨by rw [List.map_cons, hlexeme, hlexemes], hend⟩

end Fragment

/-! ### Line endings -/

namespace Text

theorem unifyLineEndings_cons {u : CodeUnit} {rest : Text}
    (h : ¬(u = carriageReturn ∧ rest.head? = some lineFeed)) :
    unifyLineEndings (u :: rest) = u :: unifyLineEndings rest := by
  rw [unifyLineEndings, if_neg h]

theorem mem_of_mem_unifyLineEndings {t : Text} {u : CodeUnit} (h : u ∈ t.unifyLineEndings) :
    u ∈ t := by
  induction t with
  | nil => exact h
  | cons v rest ih =>
    rw [unifyLineEndings] at h
    split at h
    · exact List.mem_cons_of_mem v (ih h)
    · rcases List.mem_cons.mp h with rfl | h
      · exact List.mem_cons_self
      · exact List.mem_cons_of_mem v (ih h)

/-- Two texts can be unified apart if no line ending lies across them. -/
theorem unifyLineEndings_append {s t : Text} (h : t.head? ≠ some lineFeed ∨ carriageReturn ∉ s) :
    unifyLineEndings (s ++ t) = unifyLineEndings s ++ unifyLineEndings t := by
  induction s with
  | nil => rfl
  | cons u rest ih =>
    have hrest : t.head? ≠ some lineFeed ∨ carriageReturn ∉ rest :=
      h.imp_right fun hnot hmem => hnot (List.mem_cons_of_mem u hmem)
    have hsame : u = carriageReturn ∧ (rest ++ t).head? = some lineFeed ↔
        u = carriageReturn ∧ rest.head? = some lineFeed := by
      refine and_congr_right fun hu => ?_
      cases rest with
      | nil =>
        refine iff_of_false (fun hhead => ?_) (by simp)
        rcases h with h | h
        · exact h hhead
        · exact h (hu ▸ List.mem_cons_self)
      | cons v more => rfl
    rw [List.cons_append, unifyLineEndings, unifyLineEndings, ih hrest]
    split
    · rename_i hboth
      rw [if_pos (hsame.mp hboth)]
    · rename_i hboth
      rw [if_neg fun hpair => hboth (hsame.mpr hpair)]
      rfl

theorem unifyLineEndings_eq_self {t : Text} (h : carriageReturn ∉ t) : t.unifyLineEndings = t := by
  induction t with
  | nil => rfl
  | cons u rest ih =>
    rw [List.mem_cons, not_or] at h
    rw [unifyLineEndings_cons fun hpair => h.1 hpair.1.symm, ih h.2]

/-- What begins a text still begins it, unless that was a line ending. -/
theorem head_unifyLineEndings {t : Text} {u : CodeUnit} (h : t.unifyLineEndings.head? = some u) :
    t.head? = some u ∨ u = lineFeed := by
  cases t with
  | nil => exact .inl h
  | cons v rest =>
    rw [unifyLineEndings] at h
    split at h
    · rename_i hpair
      cases rest with
      | nil => exact absurd hpair.2 (by simp)
      | cons w more =>
        obtain rfl : w = lineFeed := by simpa using hpair.2
        rw [unifyLineEndings_cons fun hboth => absurd hboth.1 (by decide)] at h
        exact .inr (Option.some.inj h).symm
    · exact .inl h

end Text

/-- No lexeme has a line ending in it. -/
theorem Lexeme.Written.notLineEnding {lexeme : Lexeme} {written : Text}
    (h : lexeme.Written written) : ∀ u ∈ written, u ≠ carriageReturn ∧ u ≠ lineFeed := by
  have hclass : ∀ {p : CodeUnit → Bool} {t : Text}, (∀ u ∈ t, p u = true) →
      p carriageReturn = false → p lineFeed = false →
      ∀ u ∈ t, u ≠ carriageReturn ∧ u ≠ lineFeed := by
    refine fun ht hreturn hfeed u hu => ⟨?_, ?_⟩
    · rintro rfl
      exact absurd (ht _ hu) (by simp [hreturn])
    · rintro rfl
      exact absurd (ht _ hu) (by simp [hfeed])
  have hword : ∀ {w : Text}, w.IsWord → ∀ u ∈ w, u ≠ carriageReturn ∧ u ≠ lineFeed :=
    fun hw => hclass hw.2 (by decide) (by decide)
  have hmark : ∀ {mark : Char} {marked : Text}, marked.IsMark mark →
      ofChar mark ≠ carriageReturn ∧ ofChar mark ≠ lineFeed →
      ∀ u ∈ marked, u ≠ carriageReturn ∧ u ≠ lineFeed := by
    rintro mark _ ⟨hbefore, hafter⟩ hmark
    exact List.forall_mem_append.mpr ⟨hclass hbefore (by decide) (by decide),
      List.forall_mem_cons.mpr ⟨hmark, hclass hafter (by decide) (by decide)⟩⟩
  cases h with
  | renamed hname hequals hnew hcolon htype =>
    simp only [List.forall_mem_append]
    exact ⟨hword hname, hmark hequals (by decide), hword hnew, hmark hcolon (by decide),
      hword htype⟩
  | «attribute» hname hcolon htype =>
    simp only [List.forall_mem_append]
    exact ⟨hword hname, hmark hcolon (by decide), hword htype⟩
  | lone htype => exact hword htype
  | opening hu =>
    exact hclass (p := isOpening) (by simpa using hu) (by decide) (by decide)
  | closing hu =>
    exact hclass (p := isClosing) (by simpa using hu) (by decide) (by decide)

/-- **Unifying line endings.** A text that spells some lexemes still does with its line endings
unified, since all of these are in its fillers. -/
theorem Laid.unifyLineEndings {lexemes : List Lexeme} {text : Text} (h : Laid lexemes text) :
    Laid lexemes text.unifyLineEndings := by
  have hfiller : ∀ {gap : Text}, gap.IsFiller → gap.unifyLineEndings.IsFiller :=
    fun hgap u hu => hgap u (Text.mem_of_mem_unifyLineEndings hu)
  induction h with
  | nil hgap => exact .nil (hfiller hgap)
  | @cons gap written rest lexeme lexemes hgap hwritten apart _ ih =>
    have hreturn : carriageReturn ∉ written := fun hmem => (hwritten.notLineEnding _ hmem).1 rfl
    have hstart : (written ++ rest).head? ≠ some lineFeed := by
      obtain ⟨v, more, rfl, -⟩ := hwritten.exists_cons
      intro hhead
      exact (hwritten.notLineEnding v List.mem_cons_self).2 (by simpa using hhead)
    rw [Text.unifyLineEndings_append (.inl hstart), Text.unifyLineEndings_append (.inr hreturn),
      Text.unifyLineEndings_eq_self hreturn]
    refine .cons (hfiller hgap) hwritten (fun hends u hu => ?_) ih
    rcases Text.head_unifyLineEndings hu with hhead | rfl
    · exact apart hends u hhead
    · decide

end NestedRecords
