import NestedRecords.Proofs.Schema.Acceptance
import NestedRecords.Proofs.Schema.Spelling

/-!
# Texts that can be completed

A builder never takes a token too many. As long as every token of a text has been accepted there is
a way to go on: the pending bracket is opened, a list without an element gets an empty struct, and
then everything is closed (`Builder.completion`). None of this can be refused, because the
containers around the innermost one are opened and take what is closed in them
(`Builder.run_completion`). No leaves come in, so names and columns that are taken do not matter.

A token that is rejected is rejected for good. What a builder makes of some tokens depends only on
what they say (`Builder.run_of_lexemes`), so no text that begins with the same tokens compiles.

`compile_completion` says both of whole texts. There the completion stands directly behind the text,
so it must not make its last word longer. It begins with a word only behind an opening bracket.
-/

namespace NestedRecords

open CodeUnit

/-! ### Stopgaps -/

/-- What is put behind a text that stops too early. -/
inductive Stopgap
  | opening
  | closing
  | emptyStruct
  deriving DecidableEq, Repr

namespace Stopgap

/-- The text of a stopgap. -/
def text : Stopgap → Text
  | opening => Text.ofString "("
  | closing => Text.ofString ")"
  | emptyStruct => Text.ofString "Struct()"

/-- The tokens that the text of a stopgap stands for. -/
def tokens : Stopgap → List Token
  | opening => [.opening { text := Text.ofString "(" }]
  | closing => [.closing { text := Text.ofString ")" }]
  | emptyStruct => [.lone { text := Text.ofString "Struct" },
      .opening { text := Text.ofString "(" }, .closing { text := Text.ofString ")" }]

/-- No stopgap has a line ending in it. -/
theorem notLineEnding (stopgap : Stopgap) :
    ∀ u ∈ stopgap.text, u ≠ carriageReturn ∧ u ≠ lineFeed := by
  have hall : stopgap.text.all (fun u => u != carriageReturn && u != lineFeed) = true := by
    cases stopgap <;> rfl
  intro u hu
  simpa using List.all_eq_true.mp hall u hu

/-- A stopgap may stand in front of any layout. -/
theorem laid_append {lexemes : List Lexeme} {rest : Text} (stopgap : Stopgap)
    (h : Laid lexemes rest) :
    Laid (stopgap.tokens.map Token.lexeme ++ lexemes) (stopgap.text ++ rest) := by
  have hnil : Text.IsFiller [] := fun _ hu => absurd hu List.not_mem_nil
  have hopening : ∀ {lexemes rest}, Laid lexemes rest →
      Laid (.opening [ofChar '('] :: lexemes) (ofChar '(' :: rest) := fun h =>
    .cons hnil (.opening (by decide)) (fun hends => absurd hends Bool.false_ne_true) h
  have hclosing : ∀ {lexemes rest}, Laid lexemes rest →
      Laid (.closing [ofChar ')'] :: lexemes) (ofChar ')' :: rest) := fun h =>
    .cons hnil (.closing (by decide)) (fun hends => absurd hends Bool.false_ne_true) h
  cases stopgap with
  | opening => exact hopening h
  | closing => exact hclosing h
  | emptyStruct =>
    have hword : (Text.ofString "Struct").IsWord := by decide
    have hstruct := Laid.cons hnil (.lone hword)
      (fun _ u hu => by
        obtain rfl : ofChar '(' = u := Option.some.inj hu
        decide) (hopening (hclosing h))
    exact hstruct

/-- Stopgaps are laid out by writing them down. -/
theorem laid (stopgaps : List Stopgap) :
    Laid ((stopgaps.flatMap tokens).map Token.lexeme) (stopgaps.flatMap text) := by
  induction stopgaps with
  | nil => exact .nil fun _ hu => absurd hu List.not_mem_nil
  | cons stopgap rest ih =>
    rw [List.flatMap_cons, List.flatMap_cons, List.map_append]
    exact stopgap.laid_append ih

/-- Stopgaps go behind a text before or after its line endings are unified. -/
theorem unifyLineEndings_append (source : Text) (stopgaps : List Stopgap) :
    Text.unifyLineEndings (source ++ stopgaps.flatMap text) =
      source.unifyLineEndings ++ stopgaps.flatMap text := by
  have hunits : ∀ u ∈ stopgaps.flatMap text, u ≠ carriageReturn ∧ u ≠ lineFeed := fun u hu => by
    obtain ⟨stopgap, -, hu⟩ := List.mem_flatMap.mp hu
    exact stopgap.notLineEnding u hu
  have hhead : (stopgaps.flatMap text).head? ≠ some lineFeed := fun hhead =>
    (hunits lineFeed (List.mem_of_mem_head? hhead)).2 rfl
  rw [Text.unifyLineEndings_append (.inl hhead),
    Text.unifyLineEndings_eq_self fun hmem => (hunits carriageReturn hmem).1 rfl]

end Stopgap

/-- What a lexeme comes to. -/
def Lexeme.meaning : Lexeme → Meaning
  | .renamed name newName type => .renamed name newName (TypeName.ofName? type.toString)
  | .attribute name type => .named name (TypeName.ofName? type.toString)
  | .lone type => .lone (TypeName.ofName? type.toString)
  | .opening _ => .opening
  | .closing _ => .closing

/-- Tokens that say the same come to the same. -/
theorem Token.meaning_eq_of_lexeme_eq {token token' : Token} (h : token.lexeme = token'.lexeme) :
    token.meaning = token'.meaning := by
  have hmeaning : ∀ token : Token, token.meaning = token.lexeme.meaning := fun token => by
    cases token <;> rfl
  rw [hmeaning, hmeaning, h]

namespace Builder

variable {b b' : Builder} {separator : String} {c : OpenContainer} {outer : List OpenContainer}

/-! ### What a run keeps -/

/-- All containers but the innermost one have their opening brackets. -/
def OuterOpened (b : Builder) : Prop := ∀ c ∈ b.containers.tail, c.opened = true

theorem HasRoom.ready {label : String} (h : b.HasRoom label) : b.Ready := by
  obtain ⟨containers, fields, leaves⟩ := b
  intro c hc
  match containers, h, hc with
  | ⟨_, _, _, .list _⟩ :: _, h, hc => exact Option.some.inj hc ▸ h.1
  | ⟨_, _, _, .struct _⟩ :: _, h, hc => exact Option.some.inj hc ▸ h.1

/-- A finished entry goes into the innermost container. -/
theorem containers_attach (b : Builder) (name : String) (type : Tree) :
    (b.attach name type).containers =
      b.containers.modifyHead fun c => { c with content := c.content.add name type } := by
  obtain ⟨containers, fields, leaves⟩ := b
  cases containers <;> rfl

theorem containers_attach_cons (innermost : b.containers = c :: outer) (name : String)
    (type : Tree) : (b.attach name type).containers =
      { c with content := c.content.add name type } :: outer := by
  rw [containers_attach, innermost]
  rfl

theorem eq_list_none_of_tree? {content : Content} (h : content.tree? = none) :
    content = .list none := by
  cases content with
  | list element => rw [Option.map_eq_none_iff.mp h]
  | struct fields => contradiction

theorem isSome_tree?_add (content : Content) (name : String) (type : Tree) :
    (content.add name type).tree?.isSome = true := by
  cases content <;> rfl

/-- **Step lemma.** A container is put only into one that is opened. -/
theorem OuterOpened.reads {token : Token} (h : b.OuterOpened) (reads : Reads separator b token b') :
    b'.OuterOpened := by
  cases reads with
  | scalar =>
    rw [OuterOpened, read, containers_attach, List.tail_modifyHead]
    exact h
  | container head known room =>
    cases hcontainers : b.containers with
    | nil =>
      rw [OuterOpened, push, hcontainers]
      exact fun _ hc => absurd hc List.not_mem_nil
    | cons c outer =>
      rw [OuterOpened, hcontainers] at h
      rw [OuterOpened, push, hcontainers]
      exact List.forall_mem_cons.mpr ⟨room.ready c (by rw [hcontainers]; rfl), h⟩
  | opening delimiter innermost pending =>
    rw [OuterOpened, innermost] at h
    exact h
  | closing delimiter innermost opened complete =>
    rw [OuterOpened, innermost] at h
    rw [OuterOpened, containers_attach, List.tail_modifyHead]
    exact fun c hc => h c (List.mem_of_mem_tail hc)

/-- **Run lemma.** So this holds of whatever is read. -/
theorem outerOpened_of_run {tokens : List Token}
    (run : tokens.foldlM (apply separator) {} = .ok b) : b.OuterOpened :=
  foldlM_invariant (P := OuterOpened) (fun _ _ _ h hstep => h.reads (apply_eq_ok_iff.mp hstep))
    (fun _ hc => absurd hc List.not_mem_nil) run

/-- A list is without an element only right behind its opening bracket. -/
theorem exists_opening_of_run {tokens : List Token}
    (run : tokens.foldlM (apply separator) {} = .ok b) (innermost : c ∈ b.containers.head?)
    (opened : c.opened = true) (incomplete : c.content.tree? = none) :
    ∃ delimiter, tokens.getLast? = some (.opening delimiter) := by
  -- a finished entry would be the element
  have hattach : ∀ (b : Builder) (name : String) (type : Tree),
      c ∉ (b.attach name type).containers.head? := by
    intro b name type hc
    rw [containers_attach, List.head?_modifyHead] at hc
    obtain ⟨c₀, -, rfl⟩ := Option.map_eq_some_iff.mp hc
    have hsome := isSome_tree?_add c₀.content name type
    rw [incomplete] at hsome
    contradiction
  rcases List.eq_nil_or_concat' tokens with rfl | ⟨front, token, rfl⟩
  · obtain rfl := Except.ok.inj run
    contradiction
  · rw [List.foldlM_append, bind_eq_ok_iff] at run
    obtain ⟨b₀, -, hlast⟩ := run
    rw [List.foldlM_cons, bind_eq_ok_iff] at hlast
    obtain ⟨b₁, hstep, hnil⟩ := hlast
    obtain rfl := Except.ok.inj hnil
    cases apply_eq_ok_iff.mp hstep with
    | scalar => exact absurd innermost (hattach _ _ _)
    | container =>
      obtain rfl := Option.some.inj innermost
      contradiction
    | opening delimiter => exact ⟨delimiter, List.getLast?_concat⟩
    | closing => exact absurd innermost (hattach _ _ _)

/-! ### Completing -/

/-- What is missing until no container is open. -/
def completion (b : Builder) : List Stopgap :=
  match b.containers with
  | [] => []
  | c :: outer =>
    (if c.opened then [] else [.opening]) ++
      ((if c.content.tree?.isSome then [] else [.emptyStruct]) ++
        .closing :: outer.map fun _ => .closing)

/-- The innermost container is opened. -/
theorem run_open (separator : String) (innermost : b.containers = c :: outer) :
    ∃ b₁ c₁, ((if c.opened then [] else [Stopgap.opening]).flatMap Stopgap.tokens).foldlM
        (apply separator) b = .ok b₁ ∧
      b₁.containers = c₁ :: outer ∧ c₁.opened = true ∧ c₁.content = c.content ∧
        b₁.leaves = b.leaves := by
  by_cases hopened : c.opened = true
  · rw [if_pos hopened]
    exact ⟨b, c, rfl, innermost, hopened, rfl, rfl⟩
  · rw [if_neg hopened]
    have hstep : b.apply separator (.opening { text := Text.ofString "(" }) = .ok _ :=
      apply_eq_ok_iff.mpr (.opening _ innermost (Bool.eq_false_iff.mpr hopened))
    exact ⟨_, _, bind_eq_ok_iff.mpr ⟨_, hstep, rfl⟩, rfl, rfl, rfl, rfl⟩

/-- A list without an element gets an empty struct. -/
theorem run_fill (separator : String) (innermost : b.containers = c :: outer)
    (opened : c.opened = true) :
    ∃ b₁ c₁, ((if c.content.tree?.isSome then [] else [Stopgap.emptyStruct]).flatMap
        Stopgap.tokens).foldlM (apply separator) b = .ok b₁ ∧
      b₁.containers = c₁ :: outer ∧ c₁.opened = true ∧ c₁.content.tree?.isSome = true ∧
        b₁.leaves = b.leaves := by
  by_cases hcomplete : c.content.tree?.isSome = true
  · rw [if_pos hcomplete]
    exact ⟨b, c, rfl, innermost, opened, hcomplete, rfl⟩
  · rw [if_neg hcomplete]
    have room : b.HasRoom "" := by
      obtain ⟨name, keyword, opened', content⟩ := c
      obtain rfl : content = .list none :=
        eq_list_none_of_tree? (Option.not_isSome_iff_eq_none.mp hcomplete)
      rw [HasRoom, innermost]
      exact ⟨opened, rfl, rfl⟩
    let keyword : Fragment := { text := Text.ofString "Struct" }
    have known : TypeName.ofName? keyword.toString = some (.container .struct) := by decide
    have hpush : b.apply separator (.lone keyword) = .ok (b.push none keyword .struct) :=
      apply_eq_ok_iff.mpr (.container (.lone keyword) known room)
    have hopen : (b.push none keyword .struct).apply separator
        (.opening { text := Text.ofString "(" }) = .ok (b.enter none keyword .struct) := rfl
    have hclose : (b.enter none keyword .struct).apply separator
        (.closing { text := Text.ofString ")" }) = .ok (b.attach "" (.struct [])) := rfl
    exact ⟨_, _, bind_eq_ok_iff.mpr ⟨_, hpush, bind_eq_ok_iff.mpr ⟨_, hopen,
      bind_eq_ok_iff.mpr ⟨_, hclose, rfl⟩⟩⟩, containers_attach_cons innermost _ _, opened,
      isSome_tree?_add _ _ _, leaves_attach _ _ _⟩

/-- A complete container is closed. -/
theorem exists_apply_closing (separator : String) (delimiter : Fragment)
    (innermost : b.containers = c :: outer) (opened : c.opened = true)
    (complete : c.content.tree?.isSome = true) :
    ∃ type, b.apply separator (.closing delimiter) =
      .ok ({ b with containers := outer }.attach c.name type) := by
  obtain ⟨type, htype⟩ := Option.isSome_iff_exists.mp complete
  exact ⟨type, apply_eq_ok_iff.mpr (.closing delimiter innermost opened htype)⟩

/-- Complete containers are closed one after the other, each of which completes the one around
it. -/
theorem run_close (separator : String) (innermost : b.containers = c :: outer)
    (opened : c.opened = true) (complete : c.content.tree?.isSome = true)
    (houter : ∀ c ∈ outer, c.opened = true) :
    ∃ b', ((Stopgap.closing :: outer.map fun _ => Stopgap.closing).flatMap Stopgap.tokens).foldlM
        (apply separator) b = .ok b' ∧ b'.containers = [] ∧ b'.leaves = b.leaves := by
  induction outer generalizing b c with
  | nil =>
    obtain ⟨type, hstep⟩ := exists_apply_closing separator _ innermost opened complete
    exact ⟨_, bind_eq_ok_iff.mpr ⟨_, hstep, rfl⟩, rfl, rfl⟩
  | cons c₁ outer ih =>
    obtain ⟨type, hstep⟩ := exists_apply_closing separator _ innermost opened complete
    have hattach : ({ b with containers := c₁ :: outer }.attach c.name type).containers = _ :=
      containers_attach_cons rfl _ _
    obtain ⟨hopened, houter⟩ := List.forall_mem_cons.mp houter
    obtain ⟨b', hrun, hclosed, hleaves⟩ := ih hattach hopened (isSome_tree?_add _ _ _) houter
    exact ⟨b', bind_eq_ok_iff.mpr ⟨_, hstep, hrun⟩, hclosed, hleaves.trans (leaves_attach _ _ _)⟩

/-- **No dead ends.** The completion is accepted, closes all containers and brings no leaves. -/
theorem run_completion (separator : String) (h : b.OuterOpened) :
    ∃ b', (b.completion.flatMap Stopgap.tokens).foldlM (apply separator) b = .ok b' ∧
      b'.containers = [] ∧ b'.leaves = b.leaves := by
  cases hcontainers : b.containers with
  | nil =>
    rw [completion, hcontainers]
    exact ⟨b, rfl, hcontainers, rfl⟩
  | cons c outer =>
    rw [OuterOpened, hcontainers] at h
    obtain ⟨b₁, c₁, hopen, hinner₁, hopened₁, hcontent, hleaves₁⟩ :=
      run_open separator hcontainers
    obtain ⟨b₂, c₂, hfill, hinner₂, hopened₂, hcomplete, hleaves₂⟩ :=
      run_fill separator hinner₁ hopened₁
    obtain ⟨b', hclose, hclosed, hleaves⟩ :=
      run_close separator hinner₂ hopened₂ hcomplete h
    refine ⟨b', ?_, hclosed, by rw [hleaves, hleaves₂, hleaves₁]⟩
    rw [hcontent] at hfill
    rw [completion, hcontainers, List.flatMap_append, List.flatMap_append, List.foldlM_append,
      hopen, ok_bind, List.foldlM_append, hfill, ok_bind, hclose]

/-- Without open containers there is a schema, with the leaves that have been read. -/
theorem exists_finish_eq_ok (separator : String) (h : b.containers = []) :
    ∃ schema, b.finish separator = .ok schema ∧
      schema.bindings = b.leaves.map (fun leaf => (leaf.path, leaf.column)) ∧
      schema.columns = b.leaves.map BoundLeaf.column ∧
      schema.datatypes = b.leaves.map BoundLeaf.datatype := by
  rw [finish, h]
  exact ⟨_, rfl, rfl, rfl, rfl⟩

/-- Where the completion begins with a word, the innermost container is a list that is opened and
has no element. -/
theorem exists_innermost_of_head {u : CodeUnit}
    (h : (b.completion.flatMap Stopgap.text).head? = some u) (hu : u.isWord = true) :
    ∃ c ∈ b.containers.head?, c.opened = true ∧ c.content.tree? = none := by
  rw [completion] at h
  cases hcontainers : b.containers with
  | nil =>
    rw [hcontainers] at h
    contradiction
  | cons c outer =>
    simp only [hcontainers] at h
    refine ⟨c, rfl, ?_⟩
    by_cases hopened : c.opened = true
    · refine ⟨hopened, Option.not_isSome_iff_eq_none.mp fun hcomplete => ?_⟩
      rw [if_pos hopened, if_pos hcomplete] at h
      obtain rfl : ofChar ')' = u := Option.some.inj h
      exact absurd hu (by decide)
    · rw [if_neg hopened] at h
      obtain rfl : ofChar '(' = u := Option.some.inj h
      exact absurd hu (by decide)

/-! ### What tokens say -/

open List in
/-- **Reading what tokens say.** Tokens that say the same are read alike, wherever they stand. -/
theorem run_of_lexemes {tokens tokens' : List Token}
    (h : tokens.map Token.lexeme = tokens'.map Token.lexeme) (separator : String) :
    Paired (Rejection.Respells fun _ _ => True) (Respells fun _ _ => True)
      (tokens.foldlM (apply separator) {}) (tokens'.foldlM (apply separator) {}) := by
  rw [← forall₂_eq_eq_eq, forall₂_map_left_iff, forall₂_map_right_iff] at h
  refine Paired.foldlM (fun b b' token token' hb htoken => ?_) h ⟨.nil, rfl, rfl⟩
  exact apply_respells hb separator (Token.meaning_eq_of_lexeme_eq htoken) fun _ _ _ _ _ => trivial

end Builder

/-! ### Whole texts -/

/-- A text that begins with tokens that are not all accepted does not compile. -/
theorem compile_eq_error_of_lexemes {source : Text} {options : CompileOptions} {tokens : List Token}
    {rejection : Rejection}
    (hrun : tokens.foldlM (Builder.apply options.separator) {} = .error rejection)
    (hbegins : tokens.map Token.lexeme <+: (Fragment.ofSource source).tokens.1.map Token.lexeme) :
    ∃ failure, compile source options = .error failure := by
  obtain ⟨more, hmore⟩ := hbegins
  obtain ⟨front, behind, hsplit, hfront, -⟩ := List.map_eq_append_iff.mp hmore.symm
  have hpaired := Builder.run_of_lexemes hfront options.separator
  rw [hrun] at hpaired
  cases hfailed : front.foldlM (Builder.apply options.separator) {} with
  | ok b =>
    rw [hfailed] at hpaired
    contradiction
  | error other =>
    rw [compile, Fragment.schema_eq, hsplit, List.foldlM_append, hfailed]
    exact ⟨_, rfl⟩

/-- The tokens of a text behind which the completion is written. -/
theorem lexemes_completed {source : Text} {separator : String} {b : Builder}
    (hlexed : (Fragment.ofSource source).tokens.2 = none)
    (hrun : (Fragment.ofSource source).tokens.1.foldlM (Builder.apply separator) {} = .ok b) :
    let completed := Fragment.ofSource (source ++ b.completion.flatMap Stopgap.text)
    completed.tokens.2 = none ∧ completed.tokens.1.map Token.lexeme =
      ((Fragment.ofSource source).tokens.1 ++ b.completion.flatMap Stopgap.tokens).map
        Token.lexeme := by
  have hlaid := (Fragment.ofSource source).laid_of_lex (Fragment.tokens_snd_eq_none_iff.mp hlexed)
  have hapart : ∀ lexeme ∈ ((Fragment.ofSource source).lex.1.map Token.lexeme).getLast?,
      lexeme.endsInWord = true →
        ∀ u ∈ (b.completion.flatMap Stopgap.text).head?, u.isWord = false := by
    intro lexeme hlast hends u hu
    refine Bool.eq_false_iff.mpr fun hword => ?_
    obtain ⟨c, hc, hopened, hincomplete⟩ := Builder.exists_innermost_of_head hu hword
    obtain ⟨delimiter, hdelimiter⟩ :=
      Builder.exists_opening_of_run hrun hc hopened hincomplete
    -- the last lexeme is the bracket, which is no word
    have hbracket : (Fragment.ofSource source).lex.1.getLast? = some (.opening delimiter) :=
      hdelimiter
    rw [List.getLast?_map, hbracket] at hlast
    obtain rfl := Option.some.inj hlast
    exact absurd hends Bool.false_ne_true
  have hboth := hlaid.append_of_getLast (Stopgap.laid b.completion) hapart
  have htext : (Fragment.ofSource (source ++ b.completion.flatMap Stopgap.text)).text =
      (Fragment.ofSource source).text ++ b.completion.flatMap Stopgap.text :=
    Stopgap.unifyLineEndings_append source b.completion
  obtain ⟨hlexemes, hend⟩ := Fragment.lex_of_laid hboth htext
  exact ⟨Fragment.tokens_snd_eq_none_iff.mpr hend, by rw [List.map_append]; exact hlexemes⟩

/-- A text with its completion is read to its end, with no container left open and no other leaves
than before. -/
theorem run_completed {source : Text} {separator : String} {b : Builder}
    (hlexed : (Fragment.ofSource source).tokens.2 = none)
    (hrun : (Fragment.ofSource source).tokens.1.foldlM (Builder.apply separator) {} = .ok b) :
    let completed := Fragment.ofSource (source ++ b.completion.flatMap Stopgap.text)
    completed.tokens.2 = none ∧
      ∃ b', completed.tokens.1.foldlM (Builder.apply separator) {} = .ok b' ∧
        b'.containers = [] ∧ b'.leaves = b.leaves := by
  intro completed
  obtain ⟨hlexed', hlexemes⟩ := lexemes_completed hlexed hrun
  obtain ⟨b₁, hrun₁, hclosed, hleaves⟩ :=
    Builder.run_completion separator (Builder.outerOpened_of_run hrun)
  -- the stopgaps are read behind the tokens of the text, and the text has the same lexemes as these
  have hpaired := Builder.run_of_lexemes hlexemes.symm separator
  rw [List.foldlM_append, hrun, ok_bind, hrun₁] at hpaired
  generalize hread : completed.tokens.1.foldlM (Builder.apply separator) {} = read
  rw [hread] at hpaired
  cases hpaired with
  | @ok _ b' hrespells =>
    have hcontainers := hrespells.containers
    rw [hclosed] at hcontainers
    exact ⟨hlexed', b', rfl, List.forall₂_nil_left_iff.mp hcontainers,
      hrespells.leaves.symm.trans hleaves⟩

/-- **No dead ends, and no late errors.** If a text lexes to its end and all its tokens are
accepted, then with some brackets and an empty struct behind it the text compiles, to a schema with
the leaves that its tokens declare. If one of the tokens of a text is rejected, then no text whose
tokens begin with the same ones, up to and including the rejected one, compiles. -/
theorem compile_completion (source : Text) (options : CompileOptions) :
    let f := Fragment.ofSource source
    (∀ b, f.tokens.2 = none → f.tokens.1.foldlM (Builder.apply options.separator) {} = .ok b →
      ∃ schema, compile (source ++ b.completion.flatMap Stopgap.text) options = .ok schema ∧
        schema.bindings = b.leaves.map (fun leaf => (leaf.path, leaf.column)) ∧
        schema.columns = b.leaves.map BoundLeaf.column ∧
        schema.datatypes = b.leaves.map BoundLeaf.datatype) ∧
    ∀ count token b rejection, f.tokens.1[count]? = some token →
      (f.tokens.1.take count).foldlM (Builder.apply options.separator) {} = .ok b →
      b.apply options.separator token = .error rejection →
      ∀ source', (f.tokens.1.take (count + 1)).map Token.lexeme <+:
          (Fragment.ofSource source').tokens.1.map Token.lexeme →
        ∃ failure, compile source' options = .error failure := by
  intro f
  constructor
  · intro b hlexed hrun
    obtain ⟨hlexed', b', hrun', hclosed, hleaves⟩ := run_completed hlexed hrun
    obtain ⟨schema, hfinish, hschema⟩ := Builder.exists_finish_eq_ok options.separator hclosed
    rw [hleaves] at hschema
    refine ⟨schema, ?_, hschema⟩
    rw [compile, mapError_eq_ok_iff, Fragment.schema_eq, hrun', ok_bind, hlexed']
    exact hfinish
  · intro count token b rejection htoken hbefore hrejected source' hbegins
    have hrun : (f.tokens.1.take (count + 1)).foldlM (Builder.apply options.separator) {} =
        .error rejection := by
      rw [List.take_add_one, htoken, List.foldlM_append, hbefore, ok_bind, Option.toList_some,
        List.foldlM_cons, hrejected]
      rfl
    exact compile_eq_error_of_lexemes hrun hbegins

/-- A text that stops in the middle of a list in a struct; and one whose third token is rejected, so
that a longer text with the same tokens at its start does not compile. -/
theorem compile_completion_list :
    (∃ b, (Fragment.ofSource (Text.ofString "a: Struct<b: Int, c: List")).tokens.1.foldlM
        (Builder.apply ".") {} = .ok b ∧
      b.completion = [.opening, .emptyStruct, .closing, .closing] ∧
      ∃ schema, compile (Text.ofString "a: Struct<b: Int, c: List" ++
          b.completion.flatMap Stopgap.text) = .ok schema ∧
        schema.columns = b.leaves.map BoundLeaf.column) ∧
    ∃ failure, compile (Text.ofString "a :Int b: Real,\na: List, d: Utf8") = .error failure := by
  constructor
  · have hcompletion : ((Fragment.ofSource
        (Text.ofString "a: Struct<b: Int, c: List")).tokens.1.foldlM
          (Builder.apply ".") {}).toOption.map Builder.completion =
            some [.opening, .emptyStruct, .closing, .closing] := by decide +kernel
    obtain ⟨b, hrun, hstopgaps⟩ := toOption_map_eq_some_iff.mp hcompletion
    obtain ⟨schema, hschema, -, hcolumns, -⟩ :=
      (compile_completion (Text.ofString "a: Struct<b: Int, c: List") {}).1 b
        (by decide +kernel) hrun
    exact ⟨b, hrun, hstopgaps, schema, hschema, hcolumns⟩
  · let tokens := (Fragment.ofSource (Text.ofString "a: Int, b: Real, a: List(Int)")).tokens.1
    have hthird : tokens[2]?.isSome = true := by decide +kernel
    have hread : ((tokens.take 2).foldlM (Builder.apply ".") {}).toOption.isSome = true := by
      decide +kernel
    have hrefused : ((tokens.take 3).foldlM (Builder.apply ".") {}).toOption = none := by
      decide +kernel
    obtain ⟨token, htoken⟩ := Option.isSome_iff_exists.mp hthird
    obtain ⟨b, hb⟩ := Option.isSome_iff_exists.mp hread
    rw [toOption_eq_some_iff] at hb
    rw [List.take_add_one, htoken, List.foldlM_append, hb, ok_bind] at hrefused
    obtain ⟨rejection, hrejection⟩ := toOption_eq_none_iff.mp hrefused
    have happly : b.apply "." token = .error rejection := by simpa using hrejection
    exact (compile_completion (Text.ofString "a: Int, b: Real, a: List(Int)") {}).2 2 token b
      rejection htoken hb happly (Text.ofString "a :Int b: Real,\na: List, d: Utf8")
      (by decide +kernel)

end NestedRecords
