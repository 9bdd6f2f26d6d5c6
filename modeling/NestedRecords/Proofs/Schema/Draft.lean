import NestedRecords.Proofs.Schema.BuilderSteps

/-!
# Drafts: derivations that are still open

Between two tokens a builder holds a schema text that has been read in part. A `Draft` is that
part as a derivation: the finished entries of the record, and for each container that is still
open the entries finished in it. `Draft.builder` is the builder with that draft in it.

`Draft.Pending` is the stack invariant. It says that the tokens read so far spell the draft:
between two container keywords that are still open stands a derivation of finished entries, and
each container had room for its keyword in the one around it. An accepted token keeps the
invariant (`Draft.Pending.step`), hence so does a run (`Draft.Pending.run`). At the end of a text
no container is open, and what is left of the invariant is a derivation of the whole text.
-/

namespace NestedRecords

/-- A container that is still open, with the entries finished in it. -/
structure OpenEntry where
  name : Option String
  keyword : Fragment
  opened : Bool
  kind : Container
  entries : List Entry

namespace OpenEntry

/-- The name an open container goes by among its siblings. -/
def label (o : OpenEntry) : String := o.name.getD ""

/-- What an open container holds. -/
def content (o : OpenEntry) : Content :=
  match o.kind with
  | .list => .list ((Declared.fields o.entries).getLast?.map Prod.snd)
  | .struct => .struct (Declared.fields o.entries)

/-- The open container of a builder. -/
def container (o : OpenEntry) : OpenContainer := ⟨o.label, o.keyword, o.opened, o.content⟩

end OpenEntry

/-- A schema text that has been read in part: the finished entries of the record and the open
containers, innermost first. -/
structure Draft where
  entries : List Entry
  stack : List OpenEntry

namespace Draft

variable {separator : String}

/-- The leaves in some open containers, those of the outermost first. -/
def openLeaves (separator : String) : List OpenEntry → List BoundLeaf
  | [] => []
  | o :: outer =>
    openLeaves separator outer ++
      Declared.entryLeaves separator (o.label :: outer.map OpenEntry.label) o.entries

/-- The builder that holds a draft. -/
def builder (separator : String) (d : Draft) : Builder where
  containers := d.stack.map OpenEntry.container
  fields := Declared.fields d.entries
  leaves := Declared.entryLeaves separator [] d.entries ++ openLeaves separator d.stack

theorem scope_builder (d : Draft) :
    (d.builder separator).scope = d.stack.map OpenEntry.label := by
  rw [Builder.scope, builder, List.map_map]
  rfl

/-- A draft with one more entry in its innermost container. -/
def add (d : Draft) (entry : Entry) : Draft :=
  match d.stack with
  | [] => { d with entries := d.entries ++ [entry] }
  | o :: outer => { d with stack := { o with entries := o.entries ++ [entry] } :: outer }

/-- The innermost container is opened and can take one more entry of this name. -/
def HasRoom (d : Draft) (name : Option String) : Prop :=
  match d.stack with
  | [] => name.getD "" ∉ (Declared.fields d.entries).map Prod.fst
  | o :: _ =>
    o.opened = true ∧
      match o.kind with
      | .list => name = none ∧ o.entries = []
      | .struct => name.getD "" ∉ (Declared.fields o.entries).map Prod.fst

/-- A draft has room where its builder has; only here it matters that no name is empty. -/
theorem hasRoom_of_builder {d : Draft} {name : Option String} (hname : name ≠ some "")
    (h : (d.builder separator).HasRoom (name.getD "")) : d.HasRoom name := by
  obtain ⟨entries, stack⟩ := d
  cases stack with
  | nil => exact h
  | cons o outer =>
    obtain ⟨label, keyword, opened, kind, inner⟩ := o
    cases kind with
    | list =>
      obtain ⟨hopened, hlabel, hlast⟩ := h
      refine ⟨hopened, ?_, ?_⟩
      · cases name with
        | none => rfl
        | some n => exact absurd (congrArg some hlabel) hname
      · cases inner with
        | nil => rfl
        | cons entry rest => simp [Declared.fields] at hlast
    | struct => exact h

/-- A whole entry goes into the builder of a draft as it goes into the draft. -/
theorem read_builder (d : Draft) (entry : Entry) :
    (d.builder separator).read separator entry = (d.add entry).builder separator := by
  rw [Builder.read, scope_builder]
  obtain ⟨entries, stack⟩ := d
  cases stack with
  | nil => simp [builder, add, Builder.attach, openLeaves, Declared.fields, Declared.entryLeaves,
      Entry.label]
  | cons o outer =>
    obtain ⟨label, keyword, opened, kind, inner⟩ := o
    cases kind <;>
      simp [builder, add, Builder.attach, openLeaves, Declared.fields, Declared.entryLeaves,
        Entry.label, OpenEntry.container, OpenEntry.content, OpenEntry.label, Content.add]

/-! ### The invariant -/

/-- **The stack invariant.** The tokens spell the draft: a derivation of the finished entries of
the record, then for each open container its keyword and, once it is opened, a derivation of the
entries finished in it. -/
inductive Pending : List Token → Draft → Prop
  | root {tokens : List Token} {entries : List Entry} (derived : Derives tokens entries)
      (distinct : (Tree.struct (Declared.fields entries)).NamesDistinct) :
    Pending tokens ⟨entries, []⟩
  | waiting {tokens : List Token} {entries : List Entry} {stack : List OpenEntry} {token : Token}
      {name : Option String} {type : Fragment} {kind : Container}
      (outer : Pending tokens ⟨entries, stack⟩) (room : HasRoom ⟨entries, stack⟩ name)
      (head : token.Introduces name none type)
      (known : TypeName.ofName? type.toString = some (.container kind)) :
    Pending (tokens ++ [token]) ⟨entries, ⟨name, type, false, kind, []⟩ :: stack⟩
  | inside {tokens content : List Token} {entries inner : List Entry} {stack : List OpenEntry}
      {token : Token} {name : Option String} {type : Fragment} {kind : Container}
      (outer : Pending tokens ⟨entries, stack⟩) (room : HasRoom ⟨entries, stack⟩ name)
      (head : token.Introduces name none type)
      (known : TypeName.ofName? type.toString = some (.container kind)) (delimiter : Fragment)
      (derived : Derives content inner)
      (single : kind = .list → inner = [] ∨ ∃ element, inner = [(none, element)])
      (distinct : (Tree.struct (Declared.fields inner)).NamesDistinct) :
    Pending (tokens ++ token :: .opening delimiter :: content)
      ⟨entries, ⟨name, type, true, kind, inner⟩ :: stack⟩

/-- One more entry keeps the names of its siblings distinct. -/
theorem namesDistinct_concat {entries : List Entry} {entry : Entry}
    (h : (Tree.struct (Declared.fields entries)).NamesDistinct)
    (hlabel : entry.1.getD "" ∉ (Declared.fields entries).map Prod.fst)
    (htype : entry.2.tree.NamesDistinct) :
    (Tree.struct (Declared.fields (entries ++ [entry]))).NamesDistinct := by
  obtain ⟨hnodup, hfields⟩ := h
  rw [Declared.fields_append]
  refine ⟨?_, Tree.fieldNamesDistinct_append.mpr ⟨hfields, htype, trivial⟩⟩
  rw [List.map_append]
  exact nodup_concat_iff.mpr ⟨hnodup, hlabel⟩

/-- A whole entry keeps the invariant. -/
theorem Pending.add {tokens more : List Token} {d : Draft} {entry : Entry} (h : Pending tokens d)
    (room : d.HasRoom entry.1) (derived : Derives more [entry])
    (distinct : entry.2.tree.NamesDistinct) : Pending (tokens ++ more) (d.add entry) := by
  cases h with
  | root hderived hdistinct =>
    exact .root (hderived.append derived) (namesDistinct_concat hdistinct room distinct)
  -- between a keyword and its opening delimiter nothing has room
  | waiting houter hroom head known => exact absurd room.1 Bool.false_ne_true
  | @inside tokens content entries inner stack token name type kind houter hroom head known
      delimiter hderived hsingle hdistinct =>
    have happ : tokens ++ token :: .opening delimiter :: content ++ more =
        tokens ++ token :: .opening delimiter :: (content ++ more) := by simp
    rw [happ]
    refine .inside houter hroom head known delimiter (hderived.append derived) ?_ ?_
    · rintro rfl
      obtain ⟨hname, hinner⟩ : entry.1 = none ∧ inner = [] := room.2
      exact .inr ⟨entry.2, by rw [hinner, ← hname]; rfl⟩
    · cases kind with
      | list =>
        obtain ⟨hname, rfl⟩ : entry.1 = none ∧ inner = [] := room.2
        exact namesDistinct_concat hdistinct (by simp [Declared.fields]) distinct
      | struct => exact namesDistinct_concat hdistinct room.2 distinct

/-- **Closing a container.** A container that holds a whole type and is opened ends a derivation of
one entry of the container around it. -/
theorem Pending.close {tokens : List Token} {entries : List Entry} {o : OpenEntry}
    {outer : List OpenEntry} {type : Tree} (delimiter : Fragment)
    (h : Pending tokens ⟨entries, o :: outer⟩) (opened : o.opened = true)
    (complete : o.content.tree? = some type) :
    ∃ declared : Declared, declared.tree = type ∧
      (∀ separator scope, declared.leaves separator scope =
        Declared.entryLeaves separator scope o.entries) ∧
      Pending (tokens ++ [.closing delimiter])
        (Draft.add ⟨entries, outer⟩ (o.name, declared)) := by
  cases h with
  | waiting => exact absurd opened Bool.false_ne_true
  | @inside tokens content _ inner _ token name keyword kind houter room head known bracket derived
      single distinct =>
    have happ : tokens ++ token :: .opening bracket :: content ++ [.closing delimiter] =
        tokens ++ (token :: .opening bracket :: (content ++ [.closing delimiter])) := by simp
    rw [happ]
    cases kind with
    | list =>
      rcases single rfl with rfl | ⟨element, rfl⟩
      · simp [OpenEntry.content, Declared.fields, Content.tree?] at complete
      · refine ⟨.list element, ?_, fun separator scope => ?_, ?_⟩
        · simpa [OpenEntry.content, Declared.fields, Content.tree?, Declared.tree] using complete
        · simp [Declared.leaves, Declared.entryLeaves]
        · exact houter.add room (.list head known derived .nil) distinct.2.1
    | struct =>
      refine ⟨.struct inner, ?_, fun separator scope => ?_, ?_⟩
      · simpa [OpenEntry.content, Content.tree?, Declared.tree] using complete
      · rw [Declared.leaves]
      · exact houter.add room (.struct head known derived .nil) distinct

/-! ### Steps and runs -/

/-- **Step lemma.** An accepted token takes a pending draft to a pending draft. -/
theorem Pending.step {tokens : List Token} {d : Draft} {token : Token} {b' : Builder}
    (h : Pending tokens d) (named : token.Named)
    (reads : Builder.Reads separator (d.builder separator) token b') :
    ∃ d' : Draft, Pending (tokens ++ [token]) d' ∧ b' = d'.builder separator := by
  obtain ⟨entries, stack⟩ := d
  cases reads with
  | @scalar _ name newName type datatype head known room _ _ =>
    refine ⟨_, h.add (hasRoom_of_builder (named _ _ _ head) room)
      (.scalar head known .nil) trivial, read_builder _ _⟩
  | @container _ name type kind head known room =>
    refine ⟨⟨entries, ⟨name, type, false, kind, []⟩ :: stack⟩,
      h.waiting (hasRoom_of_builder (named _ _ _ head) room) head known, ?_⟩
    cases kind <;>
      simp [Builder.push, builder, openLeaves, OpenEntry.container, OpenEntry.content,
        OpenEntry.label, Declared.fields, Declared.entryLeaves, Content.new]
  | @opening c outer delimiter innermost pending =>
    cases h with
    | root derived distinct => simp [builder] at innermost
    | inside houter room head known bracket derived single distinct =>
      obtain ⟨rfl, rfl⟩ := List.cons.inj innermost
      exact absurd pending (by simp [OpenEntry.container])
    | @waiting tokens _ stack token name type kind houter room head known =>
      obtain ⟨rfl, rfl⟩ := List.cons.inj innermost
      refine ⟨⟨entries, ⟨name, type, true, kind, []⟩ :: stack⟩, ?_, ?_⟩
      · have hinside := houter.inside room head known delimiter .nil (fun _ => .inl rfl)
          ⟨List.nodup_nil, trivial⟩
        simpa using hinside
      · cases kind <;> rfl
  | @closing c outer type delimiter innermost opened complete =>
    cases stack with
    | nil => simp [builder] at innermost
    | cons o outer =>
      obtain ⟨rfl, rfl⟩ := List.cons.inj innermost
      obtain ⟨declared, rfl, hleaves, hpending⟩ := h.close delimiter opened complete
      refine ⟨_, hpending, ?_⟩
      -- the leaves were noted when they were read: they only change the container they belong to
      rw [← read_builder, Builder.read, scope_builder, hleaves]
      simp [builder, openLeaves, OpenEntry.container, OpenEntry.label, Entry.label]

/-- **Run lemma.** Tokens that are all accepted take a pending draft to a pending draft. -/
theorem Pending.run {tokens more : List Token} {d : Draft} {b' : Builder} (h : Pending tokens d)
    (named : ∀ token ∈ more, token.Named)
    (run : more.foldlM (Builder.apply separator) (d.builder separator) = .ok b') :
    ∃ d' : Draft, Pending (tokens ++ more) d' ∧ b' = d'.builder separator := by
  induction more generalizing tokens d with
  | nil =>
    obtain rfl := Except.ok.inj run
    exact ⟨d, by simpa using h, rfl⟩
  | cons token rest ih =>
    rw [List.foldlM_cons, bind_eq_ok_iff] at run
    obtain ⟨b₁, happly, hrest⟩ := run
    obtain ⟨d₁, hd₁, rfl⟩ := h.step (named token (by simp)) (Builder.apply_eq_ok_iff.mp happly)
    obtain ⟨d', hd', rfl⟩ := ih hd₁ (fun t ht => named t (by simp [ht])) hrest
    exact ⟨d', by simpa using hd', rfl⟩

end Draft

end NestedRecords
