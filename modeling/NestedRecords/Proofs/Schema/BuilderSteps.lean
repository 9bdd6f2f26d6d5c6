import NestedRecords.Proofs.Outcome
import NestedRecords.Proofs.Schema.Grammar

/-!
# What reading a token does

`Builder.apply` makes its checks one after the other, and which of them fails first decides how
a text is refused. For a text that is not refused only their conjunction counts. `Builder.Reads`
says in one rule for each kind of token when it is accepted and what becomes of the builder, and
`Builder.apply_eq_ok_iff` says that these rules are all there is; nothing about accepted texts
looks at `Builder.apply` again.
-/

namespace NestedRecords

namespace Builder

variable {b b' : Builder} {separator : String}

/-- The names of the open containers, innermost first. -/
def scope (b : Builder) : List String := b.containers.map OpenContainer.name

/-- **Room for an entry.** The innermost container is opened and can take one more entry of this
name: a list takes one element, which is anonymous, and a struct or the record takes any name
that is not yet among its fields. -/
def HasRoom (b : Builder) (label : String) : Prop :=
  match b.containers with
  | [] => label ∉ b.fields.map Prod.fst
  | ⟨_, _, opened, .list element⟩ :: _ => opened = true ∧ label = "" ∧ element = none
  | ⟨_, _, opened, .struct fields⟩ :: _ => opened = true ∧ label ∉ fields.map Prod.fst

/-- Room for an entry is what the three checks on the innermost container ask for, wherever they
would report a problem. -/
theorem hasRoom_iff (b : Builder) (label : String) (first second third : Fragment) :
    b.HasRoom label ↔ b.checkOpened first = .ok () ∧ b.checkElement label second = .ok () ∧
      b.checkName label third = .ok () := by
  obtain ⟨containers, fields, leaves⟩ := b
  cases containers with
  | nil => simp [HasRoom, checkOpened, checkElement, checkName, siblings?]
  | cons c outer =>
    obtain ⟨name, keyword, opened, content⟩ := c
    cases content with
    | list element =>
      by_cases hlabel : label = "" <;> cases element <;>
        simp [HasRoom, checkOpened, checkElement, checkName, siblings?, hlabel]
    | struct fields => simp [HasRoom, checkOpened, checkElement, checkName, siblings?]

/-! ### Entries that are read whole -/

/-- The leaf that a scalar entry gives a builder. -/
def leafOf (b : Builder) (separator label : String) (newName : Option String)
    (datatype : Datatype) : BoundLeaf where
  path := joinPath separator (label :: b.scope).reverse
  column := newName.getD (Declared.nearestName (label :: b.scope))
  datatype := datatype

/-- The builder after a whole entry: its leaves behind the others, its tree in the innermost
container. -/
def read (separator : String) (b : Builder) (entry : Entry) : Builder :=
  { b with leaves := b.leaves ++ entry.2.leaves separator (entry.label :: b.scope) }.attach
    entry.label entry.2.tree

/-- The builder after the keyword of a container. -/
def push (b : Builder) (name : Option String) (keyword : Fragment) (kind : Container) : Builder :=
  { b with containers := ⟨name.getD "", keyword, false, .new kind⟩ :: b.containers }

/-- **Accepted tokens.** What reading a token makes of a builder, for each kind of token that is
accepted. -/
inductive Reads (separator : String) (b : Builder) : Token → Builder → Prop
  | scalar {token : Token} {name newName : Option String} {type : Fragment} {datatype : Datatype}
      (head : token.Introduces name newName type)
      (known : TypeName.ofName? type.toString = some (.scalar datatype))
      (room : b.HasRoom (name.getD ""))
      (column : (b.leafOf separator (name.getD "") newName datatype).column ∉
        b.leaves.map BoundLeaf.column)
      (path : (b.leafOf separator (name.getD "") newName datatype).path ∉
        b.leaves.map BoundLeaf.path) :
    Reads separator b token (b.read separator (name, .scalar newName datatype))
  | container {token : Token} {name : Option String} {type : Fragment} {kind : Container}
      (head : token.Introduces name none type)
      (known : TypeName.ofName? type.toString = some (.container kind))
      (room : b.HasRoom (name.getD "")) :
    Reads separator b token (b.push name type kind)
  | opening {c : OpenContainer} {outer : List OpenContainer} (delimiter : Fragment)
      (innermost : b.containers = c :: outer) (pending : c.opened = false) :
    Reads separator b (.opening delimiter)
      { b with containers := { c with opened := true } :: outer }
  | closing {c : OpenContainer} {outer : List OpenContainer} {type : Tree} (delimiter : Fragment)
      (innermost : b.containers = c :: outer) (opened : c.opened = true)
      (complete : c.content.tree? = some type) :
    Reads separator b (.closing delimiter) ({ b with containers := outer }.attach c.name type)

/-! ### The rules are the machine -/

/-- Reading a scalar type succeeds when its checks do. -/
theorem addLeaf_eq_ok_iff {datatype : Datatype} {type : Fragment}
    {name newName : Option Fragment} :
    b.addLeaf separator datatype type name newName = .ok b' ↔
      let label := (name.map Fragment.toString).getD ""
      let leaf := b.leafOf separator label (newName.map Fragment.toString) datatype
      b.checkElement label (name.getD type) = .ok () ∧
        leaf.column ∉ b.leaves.map BoundLeaf.column ∧
        leaf.path ∉ b.leaves.map BoundLeaf.path ∧
        b.checkName label (name.getD type) = .ok () ∧
        b' = b.read separator
          (name.map Fragment.toString, .scalar (newName.map Fragment.toString) datatype) := by
  have hpath : ∀ label, b.pathOf separator label = joinPath separator (label :: b.scope).reverse :=
    fun label => by rw [pathOf, List.reverse_cons, scope]
  simp only [addLeaf, bind_eq_ok_iff, guard_eq_ok_iff, hpath]
  constructor
  · rintro ⟨_, helement, hcolumn, hpath, _, hname, hb⟩
    exact ⟨helement, hcolumn, hpath, hname, (Except.ok.inj hb).symm⟩
  · rintro ⟨helement, hcolumn, hpath, hname, rfl⟩
    exact ⟨(), helement, hcolumn, hpath, (), hname, rfl⟩

/-- Reading the keyword of a container succeeds when its checks do. -/
theorem addContainer_eq_ok_iff {kind : Container} {keyword : Fragment} {name : Option Fragment} :
    b.addContainer kind keyword name = .ok b' ↔
      let label := (name.map Fragment.toString).getD ""
      b.checkElement label (name.getD keyword) = .ok () ∧
        b.checkName label (name.getD keyword) = .ok () ∧
        b' = b.push (name.map Fragment.toString) keyword kind := by
  simp only [addContainer, bind_eq_ok_iff]
  constructor
  · rintro ⟨_, helement, _, hname, hb⟩
    exact ⟨helement, hname, (Except.ok.inj hb).symm⟩
  · rintro ⟨helement, hname, rfl⟩
    exact ⟨(), helement, (), hname, rfl⟩

/-- Reading an entry succeeds only by one of the two rules for entries. -/
theorem reads_of_addEntry {token : Token} {type : Fragment} (name newName : Option Fragment)
    (head : token.Introduces (name.map Fragment.toString) (newName.map Fragment.toString) type)
    (h : b.addEntry separator type name newName = .ok b') : Reads separator b token b' := by
  simp only [addEntry, bind_eq_ok_iff] at h
  obtain ⟨_, hopened, h⟩ := h
  split at h
  · contradiction
  · rename_i datatype known
    obtain ⟨helement, hcolumn, hpath, hname, rfl⟩ := addLeaf_eq_ok_iff.mp h
    exact .scalar head known ((hasRoom_iff _ _ _ _ _).mpr ⟨hopened, helement, hname⟩) hcolumn hpath
  · rename_i kind known
    obtain ⟨helement, hname, rfl⟩ := addContainer_eq_ok_iff.mp h
    exact .container head known ((hasRoom_iff _ _ _ _ _).mpr ⟨hopened, helement, hname⟩)
  · contradiction

/-- Reading a scalar entry by its rule. -/
theorem addEntry_scalar {type : Fragment} {datatype : Datatype} (name newName : Option Fragment)
    (known : TypeName.ofName? type.toString = some (.scalar datatype))
    (room : b.HasRoom ((name.map Fragment.toString).getD ""))
    (column : (b.leafOf separator ((name.map Fragment.toString).getD "")
      (newName.map Fragment.toString) datatype).column ∉ b.leaves.map BoundLeaf.column)
    (path : (b.leafOf separator ((name.map Fragment.toString).getD "")
      (newName.map Fragment.toString) datatype).path ∉ b.leaves.map BoundLeaf.path) :
    b.addEntry separator type name newName = .ok (b.read separator
      (name.map Fragment.toString, .scalar (newName.map Fragment.toString) datatype)) := by
  obtain ⟨hopened, helement, hname⟩ :=
    (hasRoom_iff b _ (name.getD type) (name.getD type) (name.getD type)).mp room
  unfold addEntry
  rw [bind_eq_ok_iff]
  refine ⟨(), hopened, ?_⟩
  simp only [known]
  exact addLeaf_eq_ok_iff.mpr ⟨helement, column, path, hname, rfl⟩

/-- Reading the keyword of a container by its rule. -/
theorem addEntry_container {type : Fragment} {kind : Container} (name : Option Fragment)
    (known : TypeName.ofName? type.toString = some (.container kind))
    (room : b.HasRoom ((name.map Fragment.toString).getD "")) :
    b.addEntry separator type name none = .ok (b.push (name.map Fragment.toString) type kind) := by
  obtain ⟨hopened, helement, hname⟩ :=
    (hasRoom_iff b _ (name.getD type) (name.getD type) (name.getD type)).mp room
  unfold addEntry
  rw [bind_eq_ok_iff]
  refine ⟨(), hopened, ?_⟩
  simp only [known]
  exact addContainer_eq_ok_iff.mpr ⟨helement, hname, rfl⟩

/-- **One token.** A token is accepted exactly by the rules of `Reads`. -/
theorem apply_eq_ok_iff {token : Token} :
    b.apply separator token = .ok b' ↔ Reads separator b token b' := by
  constructor
  -- the checks that were made on the way are the conditions of a rule
  · intro h
    cases token with
    | renamed name newName type =>
      exact reads_of_addEntry (some name) (some newName) (.renamed name newName type) h
    | «attribute» name type =>
      exact reads_of_addEntry (some name) none (.named name type) h
    | lone type => exact reads_of_addEntry none none (.lone type) h
    | opening delimiter =>
      simp only [apply, openContainer] at h
      split at h
      · rename_i c outer innermost
        split at h
        · contradiction
        · rename_i hpending
          obtain rfl := Except.ok.inj h
          exact .opening delimiter innermost (by simpa using hpending)
      · contradiction
    | closing delimiter =>
      simp only [apply, closeContainer] at h
      split at h
      · rename_i c outer innermost
        split at h
        · rename_i hopened
          split at h
          · rename_i type complete
            obtain rfl := Except.ok.inj h
            exact .closing delimiter innermost hopened complete
          · contradiction
        · contradiction
      · contradiction
  -- and the conditions of a rule let every check pass, in whatever order they are made
  · intro h
    cases h with
    | scalar head known room column path =>
      cases head with
      | renamed name newName type =>
        exact addEntry_scalar (some name) (some newName) known room column path
      | named name type =>
        exact addEntry_scalar (some name) none known room column path
      | lone type => exact addEntry_scalar none none known room column path
    | container head known room =>
      cases head with
      | named name type => exact addEntry_container (some name) known room
      | lone type => exact addEntry_container none known room
    | opening delimiter innermost pending =>
      rw [apply, openContainer, innermost]
      simp only [pending, Bool.false_eq_true, if_false]
    | closing delimiter innermost opened complete =>
      rw [apply, closeContainer, innermost]
      simp only [opened, if_true, complete]

end Builder

end NestedRecords
