import NestedRecords.Proofs.Schema.Draft
import NestedRecords.Proofs.Token.Words
import NestedRecords.Schema.Reading

/-!
# Which texts are schemas

`compile` accepts exactly the texts that the grammar derives, and what it makes of them is what
the derivation says.

One direction is the stack invariant of drafts: tokens that are all accepted spell a draft, and a
draft without open containers is a derivation. The other direction runs the builder along a
derivation. `Builder.Admits` says of a builder and some entries that each entry still has room
when its turn comes; a derivation of admitted entries is read to its end
(`Builder.run_of_derives`), and what a container admits depends only on the names and leaves that
are there already. Both directions meet in `compile_eq_ok_iff`.
-/

namespace NestedRecords

open Declared

namespace Builder

variable {b : Builder} {separator : String}

/-! ### Adding entries -/

@[simp]
theorem leaves_attach (b : Builder) (name : String) (type : Tree) :
    (b.attach name type).leaves = b.leaves := by
  unfold attach
  split <;> rfl

@[simp]
theorem scope_attach (b : Builder) (name : String) (type : Tree) :
    (b.attach name type).scope = b.scope := by
  obtain ⟨containers, fields, leaves⟩ := b
  cases containers <;> rfl

@[simp]
theorem leaves_read (b : Builder) (entry : Entry) :
    (b.read separator entry).leaves =
      b.leaves ++ entry.2.leaves separator (entry.label :: b.scope) :=
  leaves_attach _ _ _

@[simp]
theorem scope_read (b : Builder) (entry : Entry) : (b.read separator entry).scope = b.scope :=
  scope_attach _ _ _

/-- An entry goes behind the others in the innermost struct or in the record. -/
theorem siblings?_read {parent : String} {fields : Fields}
    (h : b.siblings? = some (parent, fields)) (entry : Entry) :
    (b.read separator entry).siblings? =
      some (parent, fields ++ [(entry.label, entry.2.tree)]) := by
  obtain ⟨containers, finished, leaves⟩ := b
  match containers, h with
  | [], h =>
    obtain ⟨rfl, rfl⟩ := Prod.mk.inj (Option.some.inj h)
    rfl
  | ⟨_, _, _, .struct _⟩ :: _, h =>
    obtain ⟨rfl, rfl⟩ := Prod.mk.inj (Option.some.inj h)
    rfl

/-- The innermost container has its opening bracket. -/
def Ready (b : Builder) : Prop := ∀ c ∈ b.containers.head?, c.opened = true

theorem ready_empty : Ready {} := by
  intro c hc
  contradiction

theorem Ready.read (h : b.Ready) (entry : Entry) : (b.read separator entry).Ready := by
  obtain ⟨containers, fields, leaves⟩ := b
  cases containers with
  | nil => exact h
  | cons c outer => simpa [Ready, Builder.read, attach] using h

theorem hasRoom_of_siblings {parent label : String} {fields : Fields} (hready : b.Ready)
    (hsiblings : b.siblings? = some (parent, fields)) (hlabel : label ∉ fields.map Prod.fst) :
    b.HasRoom label := by
  obtain ⟨containers, finished, leaves⟩ := b
  match containers, hready, hsiblings with
  | [], _, hsiblings =>
    obtain ⟨rfl, rfl⟩ := Prod.mk.inj (Option.some.inj hsiblings)
    exact hlabel
  | ⟨_, _, _, .struct _⟩ :: _, hready, hsiblings =>
    obtain ⟨rfl, rfl⟩ := Prod.mk.inj (Option.some.inj hsiblings)
    exact ⟨hready _ rfl, hlabel⟩

/-- Entries that are read one after the other into a struct. -/
theorem foldl_read_struct {name : String} {keyword : Fragment} {opened : Bool}
    {outer : List OpenContainer} (finished : Fields) (entries : List Entry) :
    ∀ (fields : Fields) (leaves : List BoundLeaf),
      entries.foldl (read separator)
          ⟨⟨name, keyword, opened, .struct fields⟩ :: outer, finished, leaves⟩ =
        ⟨⟨name, keyword, opened, .struct (fields ++ Declared.fields entries)⟩ :: outer, finished,
          leaves ++ entryLeaves separator (name :: outer.map OpenContainer.name) entries⟩ := by
  induction entries with
  | nil => intro fields leaves; simp [Declared.fields, entryLeaves]
  | cons entry rest ih =>
    intro fields leaves
    have hread :
        read separator ⟨⟨name, keyword, opened, .struct fields⟩ :: outer, finished, leaves⟩ entry =
          ⟨⟨name, keyword, opened, .struct (fields ++ [(entry.label, entry.2.tree)])⟩ :: outer,
            finished, leaves ++
              entry.2.leaves separator (entry.label :: name :: outer.map OpenContainer.name)⟩ :=
      rfl
    rw [List.foldl_cons, hread, ih]
    simp [Declared.fields, entryLeaves, Entry.label]

/-- Entries that are read one after the other into the record. -/
theorem foldl_read_record (entries : List Entry) : ∀ (fields : Fields) (leaves : List BoundLeaf),
    entries.foldl (read separator) ⟨[], fields, leaves⟩ =
      ⟨[], fields ++ Declared.fields entries, leaves ++ entryLeaves separator [] entries⟩ := by
  induction entries with
  | nil => intro fields leaves; simp [Declared.fields, entryLeaves]
  | cons entry rest ih =>
    intro fields leaves
    have hread : read separator ⟨[], fields, leaves⟩ entry =
        ⟨[], fields ++ [(entry.label, entry.2.tree)],
          leaves ++ entry.2.leaves separator [entry.label]⟩ := rfl
    rw [List.foldl_cons, hread, ih]
    simp [Declared.fields, entryLeaves, Entry.label]

/-! ### Along a derivation -/

/-- **Entries with room.** Each of the entries has room when its turn comes, and the names in it are
distinct. Nothing is asked of its leaves. -/
def Takes (separator : String) : Builder → List Entry → Prop
  | _, [] => True
  | b, entry :: rest =>
    b.HasRoom entry.label ∧ entry.2.tree.NamesDistinct ∧
      Takes separator (b.read separator entry) rest

/-- A struct or the record has room for entries whose names are new. -/
theorem takes_of_siblings {parent : String} {fields : Fields} {entries : List Entry}
    (hready : b.Ready) (hsiblings : b.siblings? = some (parent, fields))
    (hnames : ((fields ++ Declared.fields entries).map Prod.fst).Nodup)
    (hfields : Tree.FieldNamesDistinct (Declared.fields entries)) : b.Takes separator entries := by
  induction entries generalizing b fields with
  | nil => trivial
  | cons entry rest ih =>
    obtain ⟨htype, hrest⟩ := hfields
    have hassoc : (fields ++ [(entry.label, entry.2.tree)]) ++ Declared.fields rest =
        fields ++ Declared.fields (entry :: rest) := by
      rw [List.append_assoc]
      rfl
    have hlabel : entry.label ∉ fields.map Prod.fst := by
      rw [← hassoc, List.map_append, List.map_append, List.append_assoc] at hnames
      intro hmem
      exact (List.nodup_append.mp hnames).2.2 _ hmem _ (by simp) rfl
    refine ⟨hasRoom_of_siblings hready hsiblings hlabel, htype, ?_⟩
    exact ih (hready.read entry) (siblings?_read hsiblings entry) (hassoc ▸ hnames) hrest

/-- **Admitted entries.** Each of the entries has room when its turn comes, its leaves are new
ones, and the names in it are distinct. -/
def Admits (separator : String) : Builder → List Entry → Prop
  | _, [] => True
  | b, entry :: rest =>
    b.HasRoom entry.label ∧ LeavesDistinct (b.read separator entry).leaves ∧
      entry.2.tree.NamesDistinct ∧ Admits separator (b.read separator entry) rest

/-- Entries that have room and bring new leaves are admitted. -/
theorem admits_of_takes {entries : List Entry} (h : b.Takes separator entries)
    (hleaves : LeavesDistinct (b.leaves ++ entryLeaves separator b.scope entries)) :
    b.Admits separator entries := by
  induction entries generalizing b with
  | nil => trivial
  | cons entry rest ih =>
    obtain ⟨room, htype, hrest⟩ := h
    -- the leaves of the entry stand behind those that are there
    have hsplit : (b.read separator entry).leaves ++
        entryLeaves separator (b.read separator entry).scope rest =
        b.leaves ++ entryLeaves separator b.scope (entry :: rest) := by
      rw [leaves_read, scope_read, List.append_assoc]
      rfl
    rw [← hsplit] at hleaves
    exact ⟨room, hleaves.sublist (List.sublist_append_left _ _), htype, ih hrest hleaves⟩

/-- A struct or the record admits entries whose names and leaves are new. -/
theorem admits_of_siblings {parent : String} {fields : Fields} {entries : List Entry}
    (hready : b.Ready) (hsiblings : b.siblings? = some (parent, fields))
    (hnames : ((fields ++ Declared.fields entries).map Prod.fst).Nodup)
    (hfields : Tree.FieldNamesDistinct (Declared.fields entries))
    (hleaves : LeavesDistinct (b.leaves ++ entryLeaves separator b.scope entries)) :
    b.Admits separator entries :=
  admits_of_takes (takes_of_siblings hready hsiblings hnames hfields) hleaves

/-- The builder behind the opening bracket of a container. -/
def enter (b : Builder) (name : Option String) (keyword : Fragment) (kind : Container) : Builder :=
  { b with containers := ⟨name.getD "", keyword, true, .new kind⟩ :: b.containers }

/-- The keyword of a container and its opening bracket are accepted where it has room. -/
theorem run_enter {token : Token} {name : Option String} {type opening : Fragment}
    {kind : Container} {content tokens : List Token} (head : token.Introduces name none type)
    (known : TypeName.ofName? type.toString = some (.container kind))
    (room : b.HasRoom (name.getD "")) :
    (token :: .opening opening :: (content ++ tokens)).foldlM (apply separator) b =
      content.foldlM (apply separator) (b.enter name type kind) >>= fun inner =>
        tokens.foldlM (apply separator) inner := by
  have hpush : b.apply separator token = .ok (b.push name type kind) :=
    apply_eq_ok_iff.mpr (.container head known room)
  have hopen : (b.push name type kind).apply separator (.opening opening) =
      .ok (b.enter name type kind) := rfl
  rw [List.foldlM_cons, hpush, ok_bind, List.foldlM_cons, hopen, ok_bind, List.foldlM_append]

/-- A container is read when its content is: the tokens around the content are accepted, and the
closing one attaches the type of the content. -/
theorem run_container {b₂ : Builder} {token : Token} {name : Option String}
    {type opening closing : Fragment} {kind : Container} {content tokens : List Token}
    {c : OpenContainer} {outer : List OpenContainer} {tree : Tree}
    (head : token.Introduces name none type)
    (known : TypeName.ofName? type.toString = some (.container kind))
    (room : b.HasRoom (name.getD ""))
    (run : content.foldlM (apply separator) (b.enter name type kind) = .ok b₂)
    (innermost : b₂.containers = c :: outer) (opened : c.opened = true)
    (complete : c.content.tree? = some tree) :
    (token :: .opening opening :: (content ++ .closing closing :: tokens)).foldlM
        (apply separator) b =
      tokens.foldlM (apply separator) ({ b₂ with containers := outer }.attach c.name tree) := by
  have hclose : b₂.apply separator (.closing closing) =
      .ok ({ b₂ with containers := outer }.attach c.name tree) :=
    apply_eq_ok_iff.mpr (.closing closing innermost opened complete)
  rw [run_enter head known room, run, ok_bind, List.foldlM_cons, hclose, ok_bind]

/-- **Reading a derivation.** The tokens of admitted entries are all accepted, and they make of
the builder what the entries do. -/
theorem run_of_derives {tokens : List Token} {entries : List Entry} (h : Derives tokens entries) :
    ∀ b : Builder, b.Admits separator entries →
      tokens.foldlM (apply separator) b = .ok (entries.foldl (read separator) b) := by
  induction h with
  | nil => exact fun b _ => rfl
  | @scalar token name newName type datatype tokens entries head known _ ih =>
    rintro b ⟨room, hleaves, -, hrest⟩
    have hnew : LeavesDistinct (b.leaves ++ [b.leafOf separator (name.getD "") newName datatype]) :=
      leaves_read b (name, .scalar newName datatype) ▸ hleaves
    obtain ⟨-, hcolumn, hpath⟩ := leavesDistinct_concat.mp hnew
    have hstep :
        b.apply separator token = .ok (b.read separator (name, .scalar newName datatype)) :=
      apply_eq_ok_iff.mpr (.scalar head known room hcolumn hpath)
    rw [List.foldlM_cons, hstep, ok_bind]
    exact ih _ hrest
  | @list token name type opening closing content tokens element entries head known _ _ ihc ih =>
    rintro b ⟨room, hleaves, hnames, hrest⟩
    -- the element has the leaves of the list, so they are as new as those
    have hadmits : (b.enter name type .list).Admits separator [(none, element)] := by
      refine ⟨⟨rfl, rfl, rfl⟩, ?_, hnames, trivial⟩
      rw [leaves_read] at hleaves ⊢
      exact hleaves
    rw [run_container head known room (ihc _ hadmits) rfl rfl rfl]
    exact ih _ hrest
  | @struct token name type opening closing content tokens fields entries head known _ _ ihc ih =>
    rintro b ⟨room, hleaves, hnames, hrest⟩
    have hadmits : (b.enter name type .struct).Admits separator fields := by
      refine admits_of_siblings ?_ rfl hnames.1 hnames.2 ?_
      · exact fun c hc => by rw [← Option.some.inj hc]
      · rw [leaves_read] at hleaves
        exact hleaves
    have hrun := ihc _ hadmits
    rw [enter, Content.new, foldl_read_struct] at hrun
    rw [run_container head known room hrun rfl rfl rfl]
    exact ih _ hrest

/-! ### Along a run -/

/-- An accepted token keeps the leaves distinct. -/
theorem leavesDistinct_of_reads {b' : Builder} {token : Token} (hb : LeavesDistinct b.leaves)
    (h : Reads separator b token b') : LeavesDistinct b'.leaves := by
  cases h with
  | scalar head known room column path =>
    rw [leaves_read]
    exact leavesDistinct_concat.mpr ⟨hb, column, path⟩
  | container => exact hb
  | opening => exact hb
  | closing =>
    rw [leaves_attach]
    exact hb

/-- **Accepted runs.** The builder reads tokens to the end of a text exactly when they spell
well-formed entries, and then it holds those entries. -/
theorem run_eq_ok_iff {tokens : List Token} (named : ∀ token ∈ tokens, token.Named) :
    tokens.foldlM (apply separator) {} = .ok b ∧ b.containers = [] ↔
      ∃ entries, Derives tokens entries ∧ WellFormed separator entries ∧
        b = ⟨[], Declared.fields entries, entryLeaves separator [] entries⟩ := by
  constructor
  · rintro ⟨hrun, hclosed⟩
    -- the tokens spell a draft, and without open containers a draft is a derivation
    have hempty : LeavesDistinct (leaves {}) := ⟨List.nodup_nil, List.nodup_nil⟩
    have hleaves : LeavesDistinct b.leaves :=
      foldlM_invariant (P := fun b : Builder => LeavesDistinct b.leaves)
        (fun _ _ _ hb h => leavesDistinct_of_reads hb (apply_eq_ok_iff.mp h)) hempty hrun
    have hstart : Draft.Pending [] ⟨[], []⟩ := .root .nil ⟨List.nodup_nil, trivial⟩
    obtain ⟨⟨entries, stack⟩, hpending, rfl⟩ := hstart.run named hrun
    obtain rfl : stack = [] := List.map_eq_nil_iff.mp hclosed
    have hbuilder : Draft.builder separator ⟨entries, []⟩ =
        ⟨[], Declared.fields entries, entryLeaves separator [] entries⟩ := by
      rw [Draft.builder, Draft.openLeaves, List.append_nil]
      rfl
    rw [hbuilder] at hleaves ⊢
    cases hpending with
    | root derived distinct => exact ⟨entries, derived, ⟨distinct, hleaves⟩, rfl⟩
  · rintro ⟨entries, derived, ⟨⟨hnames, hfields⟩, hleaves⟩, rfl⟩
    refine ⟨?_, rfl⟩
    rw [run_of_derives derived {} (admits_of_siblings ready_empty rfl hnames hfields hleaves),
      foldl_read_record]
    simp

end Builder

/-! ### Whole texts -/

/-- A fragment that lexes to its end, and only such a one, leaves nothing to complain about. -/
theorem Fragment.tokens_snd_eq_none_iff {f : Fragment} :
    f.tokens.2 = none ↔ f.lex.2.text = [] := by
  simp [Fragment.tokens]

/-- A fragment is a schema exactly when it lexes to its end and its tokens spell well-formed
entries. -/
theorem Fragment.schema_eq_ok_iff {f : Fragment} {separator : String} {schema : Schema} :
    f.schema separator = .ok schema ↔ f.tokens.2 = none ∧ ∃ entries, Derives f.tokens.1 entries ∧
      WellFormed separator entries ∧ schema = Declared.schema separator entries := by
  have hnamed : ∀ token ∈ f.tokens.1, token.Named := f.named_of_mem_lex
  rw [Fragment.schema]
  generalize f.tokens = read at hnamed ⊢
  obtain ⟨tokens, unread⟩ := read
  simp only [bind_eq_ok_iff]
  constructor
  · rintro ⟨b, hrun, hfinish⟩
    cases unread with
    | some rejection => contradiction
    | none =>
      refine ⟨rfl, ?_⟩
      change b.finish separator = .ok schema at hfinish
      unfold Builder.finish at hfinish
      split at hfinish
      · split at hfinish <;> contradiction
      · rename_i hclosed
        obtain ⟨entries, derived, wellFormed, rfl⟩ :=
          (Builder.run_eq_ok_iff hnamed).mp ⟨hrun, hclosed⟩
        exact ⟨entries, derived, wellFormed, (Except.ok.inj hfinish).symm⟩
  · rintro ⟨rfl, entries, derived, wellFormed, rfl⟩
    obtain ⟨hrun, -⟩ := (Builder.run_eq_ok_iff hnamed).mpr ⟨entries, derived, wellFormed, rfl⟩
    exact ⟨_, hrun, rfl⟩

/-- **Accepted texts.** A text is a schema exactly when it lexes to its end and its tokens spell
well-formed entries; the schema is the one that the entries make up. -/
theorem compile_eq_ok_iff {source : Text} {options : CompileOptions} {schema : Schema} :
    compile source options = .ok schema ↔ (Fragment.ofSource source).tokens.2 = none ∧
      ∃ entries, Derives (Fragment.ofSource source).tokens.1 entries ∧
        WellFormed options.separator entries ∧
          schema = Declared.schema options.separator entries := by
  rw [compile, mapError_eq_ok_iff, Fragment.schema_eq_ok_iff]

/-- **Compiling is parsing.** A text compiles exactly when it lexes without error and its tokens
derive from the grammar with well-formed entries, and then the tree of the schema is the tree of
that derivation. -/
theorem compile_succeeds_iff_derives (source : Text) (options : CompileOptions) :
    ((∃ schema, compile source options = .ok schema) ↔
      (Fragment.ofSource source).tokens.2 = none ∧
        ∃ entries, Derives (Fragment.ofSource source).tokens.1 entries ∧
          WellFormed options.separator entries) ∧
    ∀ schema entries, compile source options = .ok schema →
      Derives (Fragment.ofSource source).tokens.1 entries →
        WellFormed options.separator entries → schema.fields = Declared.fields entries := by
  constructor
  · constructor
    · rintro ⟨schema, hschema⟩
      obtain ⟨hlexed, entries, derived, wellFormed, -⟩ := compile_eq_ok_iff.mp hschema
      exact ⟨hlexed, entries, derived, wellFormed⟩
    · rintro ⟨hlexed, entries, derived, wellFormed⟩
      exact ⟨_, compile_eq_ok_iff.mpr ⟨hlexed, entries, derived, wellFormed, rfl⟩⟩
  · intro schema entries hschema derived wellFormed
    obtain ⟨hlexed, -⟩ := compile_eq_ok_iff.mp hschema
    have hsame := compile_eq_ok_iff.mpr ⟨hlexed, entries, derived, wellFormed, rfl⟩
    obtain rfl := Except.ok.inj (hschema.symm.trans hsame)
    rfl

end NestedRecords
