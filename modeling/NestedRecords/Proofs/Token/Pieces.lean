import NestedRecords.Proofs.Token.Tiling
import NestedRecords.Schema.Reading

/-!
# Tokens as pieces of a text

Everything the lexer hands out was cut from the fragment it was given, and still knows where. A
fragment is a piece of another one if it is some of its units, at the place they have there
(`Fragment.PieceOf`). The parts of the tokens are pieces of the text, and they stand in it one
behind the other (`Fragment.InOrder`); both follow from the tiling.

What is left over behind the last token begins with a unit that may stand nowhere between tokens
(`Fragment.head_lex_rest`), so the lexer stops early at such a unit and nowhere else.
-/

namespace NestedRecords

open CodeUnit

namespace Fragment

variable {f g part rest : Fragment} {t : Text} {parts : List Fragment} {token : Token}
  {tokens : List Token}

/-! ### Pieces -/

/-- **Pieces.** The first fragment is cut from the second one, with its place in it. -/
def PieceOf (g f : Fragment) : Prop := ∃ first count, g = (f.drop first).take count

theorem take_take (f : Fragment) (m n : Nat) : (f.take m).take n = f.take (min n m) := by
  rw [take, take, take, List.take_take]

/-- Cutting a front off and then from the front is the same in the other order. -/
theorem drop_take (f : Fragment) (count first : Nat) :
    (f.take count).drop first = (f.drop (min first count)).take (count - first) := by
  simp only [drop, take, List.drop_take, List.take_take]
  rcases Nat.le_total first count with h | h
  · rw [Nat.min_eq_left h]
  · rw [Nat.min_eq_right h, Nat.sub_eq_zero_of_le h, List.take_zero, List.take_zero]

/-- A piece of a piece is a piece. -/
theorem PieceOf.trans {e : Fragment} (h : g.PieceOf f) (h' : f.PieceOf e) : g.PieceOf e := by
  obtain ⟨first, count, rfl⟩ := h
  obtain ⟨first', count', rfl⟩ := h'
  exact ⟨_, _, by rw [drop_take, drop_drop, take_take]⟩

/-- A slice is a piece. -/
theorem pieceOf_slice (f : Fragment) (first : Int) (last : Option Int) :
    (f.slice first last).PieceOf f := ⟨_, _, rfl⟩

/-- A piece of what is left of a fragment is a piece of the fragment. -/
theorem PieceOf.of_skips (h : g.PieceOf rest) (hskips : f.Skips t rest) : g.PieceOf f := by
  obtain ⟨first, count, rfl⟩ := h
  exact ⟨t.length + first, count, by rw [hskips.eq_drop, drop_drop]⟩

/-- What a fragment begins with is a piece of it. -/
theorem Yields.pieceOf (h : f.Yields part rest) : part.PieceOf f := by
  refine ⟨0, part.text.length, ?_⟩
  have hdrop : f.drop 0 = f := rfl
  rw [hdrop, take, h.skips.text, List.take_left, ← h.start]

/-- A piece holds the text that stands at its place, as many units from the start of the fragment as
its offset is from that of the fragment. -/
theorem PieceOf.exists_distance (h : g.PieceOf f) : ∃ distance : Nat,
    g.start.offset = f.start.offset + distance ∧ g.start = f.advance distance ∧
      g.text = (f.text.drop distance).take g.text.length := by
  obtain ⟨first, count, rfl⟩ := h
  have hstart : (f.drop first).start = f.advance (min first f.text.length : Nat) :=
    congrArg f.start.after List.take_eq_take_min
  have hdrop : f.text.drop first = f.text.drop (min first f.text.length) := List.drop_eq_drop_min
  refine ⟨min first f.text.length, ?_, hstart, ?_⟩
  · rw [take, hstart, advance, Position.offset_after, List.length_take]
    omega
  · rw [take, text_drop, hdrop]
    exact List.prefix_iff_eq_take.mp (List.take_prefix count _)

/-- In a fragment that begins with a filler, no piece that does not begin with one stands at its
start. -/
theorem PieceOf.offset_lt {u : CodeUnit} (h : g.PieceOf f)
    (hg : ∃ v ∈ g.text.head?, v.isFiller = false) (hu : f.text.head? = some u)
    (hfiller : u.isFiller = true) : f.start.offset < g.start.offset := by
  obtain ⟨v, hv, hnot⟩ := hg
  obtain ⟨distance, hoffset, -, htext⟩ := h.exists_distance
  have hpos : distance ≠ 0 := by
    rintro rfl
    rw [htext, List.drop_zero, List.head?_take, hu] at hv
    split at hv
    · contradiction
    · obtain rfl := Option.some.inj hv
      rw [hfiller] at hnot
      contradiction
  omega

/-- So in such a source text it has an offset. -/
theorem PieceOf.offset_pos {source : Text} {u : CodeUnit} (h : g.PieceOf { text := source })
    (hg : ∃ v ∈ g.text.head?, v.isFiller = false) (hu : source.head? = some u)
    (hfiller : u.isFiller = true) : 0 < g.start.offset :=
  h.offset_lt hg hu hfiller

/-! ### Pieces in order -/

/-- One fragment ends where another one starts, or in front of it. -/
def Before (g h : Fragment) : Prop := g.start.offset + g.text.length ≤ h.start.offset

/-- **Parts in order.** The fragment yields the parts one after the other, with some text skipped in
front of each of them. -/
inductive InOrder : Fragment → List Fragment → Prop
  | nil {f : Fragment} : InOrder f []
  | cons {f g part rest : Fragment} {gap : Text} {parts : List Fragment} (hskips : f.Skips gap g)
    (hyields : g.Yields part rest) (behind : InOrder rest parts) : InOrder f (part :: parts)

namespace InOrder

theorem of_skips (h : g.InOrder parts) (hskips : f.Skips t g) : f.InOrder parts := by
  cases h with
  | nil => exact .nil
  | cons hskips' hyields behind => exact .cons (hskips.trans hskips') hyields behind

theorem of_yields (h : rest.InOrder parts) (hyields : f.Yields part rest) :
    f.InOrder (part :: parts) :=
  .cons (.refl f) hyields h

/-- A fragment is a part of itself. -/
theorem whole (f : Fragment) : f.InOrder [f] :=
  of_yields (.nil (f := ⟨[], f.start.after f.text⟩)) ⟨rfl, (List.append_nil f.text).symm, rfl⟩

theorem pieceOf (h : f.InOrder parts) : ∀ part ∈ parts, part.PieceOf f := by
  induction h with
  | nil => exact fun _ hmem => absurd hmem List.not_mem_nil
  | cons hskips hyields _ ih =>
    refine List.forall_mem_cons.mpr ⟨hyields.pieceOf.of_skips hskips, fun part hpart => ?_⟩
    exact ((ih part hpart).of_skips hyields.skips).of_skips hskips

theorem pairwise (h : f.InOrder parts) : parts.Pairwise Before := by
  induction h with
  | nil => exact .nil
  | @cons f g part rest gap parts hskips hyields behind ih =>
    refine .cons (fun other hother => ?_) ih
    obtain ⟨distance, hdistance, -⟩ := (behind.pieceOf other hother).exists_distance
    have hrest := hyields.skips.offset
    rw [← hyields.start] at hrest
    rw [Before, hdistance, hrest]
    omega

end InOrder

theorem YieldsMarked.inOrder {mark : Char} (h : f.YieldsMarked mark part rest)
    (hrest : rest.InOrder parts) : f.InOrder (part :: parts) := by
  obtain ⟨_, _, -, hskips, hword⟩ := h
  exact (hrest.of_yields hword.toYields).of_skips hskips

/-- The parts of a token come in order, and what is behind the token comes behind them. -/
theorem BeginsWith.inOrder (h : f.BeginsWith token rest) (hrest : rest.InOrder parts) :
    f.InOrder (token.parts ++ parts) := by
  cases h with
  | renamed hname hnew htype =>
    exact (hnew.inOrder (htype.inOrder hrest)).of_yields hname.toYields
  | «attribute» hname htype => exact (htype.inOrder hrest).of_yields hname.toYields
  | lone htype => exact hrest.of_yields htype.toYields
  | opening _ _ hyields => exact hrest.of_yields hyields
  | closing _ _ hyields => exact hrest.of_yields hyields

/-- The parts of all tokens of a tiling come in order, and what is left over comes behind them. -/
theorem Tiles.inOrder (h : f.Tiles tokens rest) (hrest : rest.InOrder parts) :
    f.InOrder (tokens.flatMap Token.parts ++ parts) := by
  induction h with
  | nil _ hskips => exact hrest.of_skips hskips
  | cons _ hskips hbegins _ ih =>
    rw [List.flatMap_cons, List.append_assoc]
    exact (hbegins.inOrder (ih hrest)).of_skips hskips

/-- Every part of a token is a piece of the fragment. -/
theorem pieceOf_of_mem_lex (f : Fragment) : ∀ part ∈ f.lex.1.flatMap Token.parts,
    part.PieceOf f :=
  fun part hpart => (f.lex_tiles.inOrder .nil).pieceOf part (List.mem_append_left [] hpart)

/-- So is what is left over. -/
theorem pieceOf_lex_rest (f : Fragment) : f.lex.2.PieceOf f :=
  (f.lex_tiles.inOrder (.whole f.lex.2)).pieceOf _
    (List.mem_append_right _ (List.mem_singleton_self _))

/-! ### What a part is -/

/-- A part of a token: a word, or a bracket alone. -/
def IsPart (part : Fragment) : Prop :=
  part.text.IsWord ∨ ∃ u, part.text = [u] ∧ (u.isOpening = true ∨ u.isClosing = true)

/-- A part does not begin with a filler. -/
theorem IsPart.exists_head (h : part.IsPart) : ∃ u ∈ part.text.head?, u.isFiller = false := by
  have hstart : ∃ u ∈ part.text.head?, u.isStart = true := by
    rcases h with hword | ⟨u, htext, hu⟩
    · obtain ⟨u, rest, htext, hu⟩ := hword.exists_cons
      exact ⟨u, by rw [htext]; rfl, isStart_iff.mpr (.inl hu)⟩
    · exact ⟨u, by rw [htext]; rfl, isStart_iff.mpr (.inr hu)⟩
  obtain ⟨u, hu, hstart⟩ := hstart
  exact ⟨u, hu, isFiller_eq_false_of_isStart hstart⟩

theorem YieldsMarked.isPart {mark : Char} (h : f.YieldsMarked mark part rest) : part.IsPart := by
  obtain ⟨_, _, _, _, hword⟩ := h
  exact .inl hword.isWord

theorem BeginsWith.isPart (h : f.BeginsWith token rest) : ∀ part ∈ token.parts, part.IsPart := by
  cases h with
  | renamed hname hnew htype =>
    simp only [Token.parts, List.forall_mem_cons]
    exact ⟨.inl hname.isWord, hnew.isPart, htype.isPart, fun _ hmem => absurd hmem List.not_mem_nil⟩
  | «attribute» hname htype =>
    simp only [Token.parts, List.forall_mem_cons]
    exact ⟨.inl hname.isWord, htype.isPart, fun _ hmem => absurd hmem List.not_mem_nil⟩
  | lone htype => exact List.forall_mem_singleton.mpr (.inl htype.isWord)
  | opening hu htext _ => exact List.forall_mem_singleton.mpr (.inr ⟨_, htext, .inl hu⟩)
  | closing hu htext _ => exact List.forall_mem_singleton.mpr (.inr ⟨_, htext, .inr hu⟩)

theorem Tiles.isPart (h : f.Tiles tokens rest) :
    ∀ token ∈ tokens, ∀ part ∈ token.parts, part.IsPart := by
  induction h with
  | nil => exact fun _ hmem => absurd hmem List.not_mem_nil
  | cons _ _ hbegins _ ih => exact List.forall_mem_cons.mpr ⟨hbegins.isPart, ih⟩

/-! ### Where the lexer stops -/

/-- Where a token may begin there is one. -/
theorem isStart_eq_false_of_token?_eq_none (h : f.token? = none) :
    ∀ u ∈ f.text.head?, u.isStart = false := by
  intro u hu
  refine Bool.eq_false_iff.mpr fun hstart => ?_
  unfold token? at h
  split at h
  · contradiction
  · rename_i hword
    rw [hu] at h
    rcases isStart_iff.mp hstart with hu' | hu' | hu'
    · obtain ⟨more, hmore⟩ := List.head?_eq_some_iff.mp hu
      rw [word?, takeWhile, hmore, List.takeWhile_cons_of_pos hu'] at hword
      contradiction
    · simp [hu'] at h
    · simp [hu', isOpening_eq_false_of_isClosing hu'] at h

/-- **What is left over.** Behind the last token stands nothing, or a unit that no token begins with
and that may not stand between tokens. -/
theorem head_lex_rest (f : Fragment) :
    ∀ u ∈ f.lex.2.text.head?, u.isStart = false ∧ u.isFiller = false := by
  fun_induction lex f with
  | case1 f token rest h ih => exact ih
  | case2 f hnone =>
    exact fun u hu => ⟨isStart_eq_false_of_token?_eq_none hnone u hu, f.head_dropWhile u hu⟩

/-- The lexer complains about what is left over, which is then not empty. -/
theorem site_of_mem_tokens_snd {rejection : Rejection} (h : rejection ∈ f.tokens.2) :
    rejection.site = f.lex.2 ∧ f.lex.2.text ≠ [] := by
  have hunread : f.tokens.2 = if f.lex.2.text.isEmpty then none
      else some ⟨.unexpectedContent f.lex.2.text.firstLine.toString, f.lex.2⟩ := rfl
  rw [hunread] at h
  split at h
  · contradiction
  · rename_i hne
    exact ⟨congrArg Rejection.site (Option.some.inj h).symm, by simpa using hne⟩

/-- It complains about a unit that no token begins with and that may not stand between tokens. -/
theorem exists_head_of_mem_tokens_snd {rejection : Rejection} (h : rejection ∈ f.tokens.2) :
    ∃ u ∈ rejection.site.text.head?, u.isStart = false ∧ u.isFiller = false := by
  obtain ⟨hsite, hne⟩ := site_of_mem_tokens_snd h
  obtain ⟨u, more, htext⟩ := List.exists_cons_of_ne_nil hne
  have hhead : f.lex.2.text.head? = some u := by rw [htext]; rfl
  exact ⟨u, by rw [hsite]; exact hhead, f.head_lex_rest u hhead⟩

/-- **Tokens tile a text.** The parts of the tokens stand in the fragment one behind the other. Each
of them knows its place there and holds the text of this place. In front of the tokens, between them
and behind the last one stand only fillers, and between the parts of a token only its marks. Where
this ends the text ends, or the lexer stops and complains, and the latter is so exactly if there
stands a unit that no token begins with and that is no filler. -/
theorem tokens_tile (f : Fragment) :
    (f.tokens.1.flatMap Token.parts).Pairwise Before ∧
    (∀ part ∈ f.tokens.1.flatMap Token.parts, ∃ distance : Nat,
      part.start.offset = f.start.offset + distance ∧ part.start = f.advance distance ∧
        part.text = (f.text.drop distance).take part.text.length) ∧
    ∃ rest, f.Tiles f.tokens.1 rest ∧ (f.tokens.2 = none → rest.text = []) ∧
      (∀ rejection ∈ f.tokens.2, rejection.site = rest) ∧
      (f.tokens.2 ≠ none ↔ ∃ u ∈ rest.text.head?, u.isStart = false ∧ u.isFiller = false) := by
  have hinOrder := f.lex_tiles.inOrder .nil
  rw [List.append_nil] at hinOrder
  refine ⟨hinOrder.pairwise, fun part hpart => ?_, f.lex.2, f.lex_tiles, ?_, ?_, ?_⟩
  · exact (f.pieceOf_of_mem_lex part hpart).exists_distance
  · intro hnone
    simpa [tokens] using hnone
  · exact fun rejection hrejection => (site_of_mem_tokens_snd hrejection).1
  · constructor
    · intro hsome
      obtain ⟨rejection, hrejection⟩ := Option.ne_none_iff_exists'.mp hsome
      obtain ⟨u, more, htext⟩ :=
        List.exists_cons_of_ne_nil (site_of_mem_tokens_snd hrejection).2
      have hhead : f.lex.2.text.head? = some u := by rw [htext]; rfl
      exact ⟨u, hhead, f.head_lex_rest u hhead⟩
    · rintro ⟨u, hu, -⟩ hnone
      have hempty : f.lex.2.text = [] := by simpa [tokens] using hnone
      rw [hempty] at hu
      contradiction

-- The tokens of a text in the middle of another one, up to the question mark.
example :
    let f : Fragment := ⟨Text.ofString "\n a =b: Int8,\n?x", ⟨100, 3, 7⟩⟩
    f.tokens.1.flatMap (·.parts.map Fragment.start) =
      [⟨102, 4, 2⟩, ⟨105, 4, 5⟩, ⟨108, 4, 8⟩] ∧
    f.tokens.2.map (·.site.start) = some ⟨114, 5, 1⟩ := by
  decide +kernel

end Fragment

end NestedRecords
