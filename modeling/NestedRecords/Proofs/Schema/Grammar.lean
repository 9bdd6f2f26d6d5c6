import NestedRecords.Proofs.Columns
import NestedRecords.Proofs.Tree.Leaves
import NestedRecords.Schema.Builder

/-!
# The grammar of schema texts

What a schema text says, without the machine that reads it. A schema is a sequence of entries;
an entry is a scalar type, or a container keyword with its content between an opening and a
closing delimiter, where the content of a struct is a sequence of entries and the content of a
list is one entry without a name. `Derives` is that grammar over tokens. What it derives are
entries: names with a `Declared` type, which is a tree of types that still has the new names of
its columns.

Which brackets are used is not looked at, so any opening delimiter goes with any closing one.

Not every derivation is a schema. `Declared.WellFormed` adds what the grammar leaves open: sibling
names differ, no two leaves fill one column, and no two leaves read one json path.
-/

namespace NestedRecords

/-- A type as a schema text declares it: a tree of types in which a scalar may give its column a
new name. An entry that is written without a name has none, which is not the same as an empty
one; the element of a list never has a name. -/
inductive Declared
  | scalar (newName : Option String) (datatype : Datatype)
  | list (element : Declared)
  | struct (entries : List (Option String × Declared))

/-- A declared type with the name it is given. -/
abbrev Entry := Option String × Declared

/-- The name an entry goes by among its siblings: without a name it is anonymous. -/
def Entry.label (entry : Entry) : String := entry.1.getD ""

namespace Declared

/-! ### Trees and leaves -/

mutual

/-- The type that is declared. -/
def tree : Declared → Tree
  | scalar _ datatype => .scalar datatype
  | list element => .list (tree element)
  | struct entries => .struct (fields entries)

/-- The fields that some entries declare. -/
def fields : List (Option String × Declared) → List (String × Tree)
  | [] => []
  | (name, type) :: rest => (name.getD "", tree type) :: fields rest

end

/-- The innermost name of a scope that is not empty, or the empty name. -/
def nearestName (scope : List String) : String := (scope.find? (· ≠ "")).getD ""

mutual

/-- The leaves of a declared type in the order of the text, where the scope holds the names on
the way to it, its own at the head. A leaf fills the column of its new name; without one, that
of the nearest name, which is its own or else that of a container around it. -/
def leaves (separator : String) (scope : List String) : Declared → List BoundLeaf
  | scalar newName datatype =>
    [{ path := joinPath separator scope.reverse
       column := newName.getD (nearestName scope)
       datatype }]
  | list element => leaves separator ("" :: scope) element
  | struct entries => entryLeaves separator scope entries

/-- The leaves of some entries, one entry after the other. -/
def entryLeaves (separator : String) (scope : List String) :
    List (Option String × Declared) → List BoundLeaf
  | [] => []
  | (name, type) :: rest =>
    leaves separator (name.getD "" :: scope) type ++ entryLeaves separator scope rest

end

/-- No two of the leaves fill one column, and no two read one json path. -/
structure LeavesDistinct (leaves : List BoundLeaf) : Prop where
  columns : (leaves.map BoundLeaf.column).Nodup
  paths : (leaves.map BoundLeaf.path).Nodup

theorem LeavesDistinct.sublist {leaves others : List BoundLeaf} (h : LeavesDistinct others)
    (hsub : leaves.Sublist others) : LeavesDistinct leaves :=
  ⟨h.columns.sublist (hsub.map _), h.paths.sublist (hsub.map _)⟩

/-- A leaf behind distinct ones is a new one. -/
theorem leavesDistinct_concat {leaves : List BoundLeaf} {leaf : BoundLeaf} :
    LeavesDistinct (leaves ++ [leaf]) ↔ LeavesDistinct leaves ∧
      leaf.column ∉ leaves.map BoundLeaf.column ∧ leaf.path ∉ leaves.map BoundLeaf.path := by
  have hconcat : ∀ f : BoundLeaf → String, ((leaves ++ [leaf]).map f).Nodup ↔
      (leaves.map f).Nodup ∧ f leaf ∉ leaves.map f := fun f => by
    rw [List.map_append, List.map_singleton, nodup_concat_iff]
  constructor
  · rintro ⟨hcolumns, hpaths⟩
    obtain ⟨hcolumns, hcolumn⟩ := (hconcat _).mp hcolumns
    obtain ⟨hpaths, hpath⟩ := (hconcat _).mp hpaths
    exact ⟨⟨hcolumns, hpaths⟩, hcolumn, hpath⟩
  · rintro ⟨⟨hcolumns, hpaths⟩, hcolumn, hpath⟩
    exact ⟨(hconcat _).mpr ⟨hcolumns, hcolumn⟩, (hconcat _).mpr ⟨hpaths, hpath⟩⟩

/-- **Well-formed entries.** What a schema asks of its entries beyond the grammar. -/
structure WellFormed (separator : String) (entries : List Entry) : Prop where
  names_distinct : (Tree.struct (fields entries)).NamesDistinct
  leaves_distinct : LeavesDistinct (entryLeaves separator [] entries)

/-- The schema that some entries make up. -/
def schema (separator : String) (entries : List Entry) : Schema where
  fields := fields entries
  bindings := (entryLeaves separator [] entries).map fun leaf => (leaf.path, leaf.column)
  columns := (entryLeaves separator [] entries).map BoundLeaf.column
  datatypes := (entryLeaves separator [] entries).map BoundLeaf.datatype
  separator := separator

@[simp]
theorem fields_append (entries others : List Entry) :
    fields (entries ++ others) = fields entries ++ fields others := by
  induction entries with
  | nil => rfl
  | cons entry rest ih => simp only [List.cons_append, fields, ih]

@[simp]
theorem entryLeaves_append (separator : String) (scope : List String)
    (entries others : List Entry) :
    entryLeaves separator scope (entries ++ others) =
      entryLeaves separator scope entries ++ entryLeaves separator scope others := by
  induction entries with
  | nil => rfl
  | cons entry rest ih => simp only [List.cons_append, entryLeaves, ih, List.append_assoc]

mutual

/-- The leaves of a declared type have the paths and datatypes of the leaves of its tree. -/
theorem map_leaves (separator : String) (scope : List String) : ∀ type : Declared,
    (leaves separator scope type).map (fun leaf => (leaf.path, leaf.datatype)) =
      (tree type).leaves separator scope
  | scalar _ _ => rfl
  | list element => by rw [leaves, map_leaves, tree, Tree.leaves]
  | struct entries => by rw [leaves, map_entryLeaves, tree, Tree.leaves]

/-- The leaves of some entries have the paths and datatypes of the leaves of their fields. -/
theorem map_entryLeaves (separator : String) (scope : List String) :
    ∀ entries : List (Option String × Declared),
      (entryLeaves separator scope entries).map (fun leaf => (leaf.path, leaf.datatype)) =
        Tree.fieldLeaves separator scope (fields entries)
  | [] => rfl
  | (name, type) :: rest => by
    rw [entryLeaves, List.map_append, map_leaves, map_entryLeaves, fields, Tree.fieldLeaves]

end

end Declared

/-! ### Derivations -/

/-- **Introducing an entry.** The token begins an entry with this name and new name, and its type
is called by this fragment. -/
inductive Token.Introduces : Token → Option String → Option String → Fragment → Prop
  | renamed (name newName type : Fragment) :
    Introduces (.renamed name newName type) (some name.toString) (some newName.toString) type
  | named (name type : Fragment) :
    Introduces (.attribute name type) (some name.toString) none type
  | lone (type : Fragment) : Introduces (.lone type) none none type

/-- The name that a token introduces, if any, is not empty. -/
def Token.Named (token : Token) : Prop :=
  ∀ name newName type, token.Introduces name newName type → name ≠ some ""

/-- **The grammar.** The tokens spell these entries, one after the other. Every type name is known,
only a scalar entry can have a new name, and the content of a list is a single entry that has no
name at all. -/
inductive Derives : List Token → List Entry → Prop
  | nil : Derives [] []
  | scalar {token : Token} {name newName : Option String} {type : Fragment} {datatype : Datatype}
      {tokens : List Token} {entries : List Entry}
      (head : token.Introduces name newName type)
      (known : TypeName.ofName? type.toString = some (.scalar datatype))
      (rest : Derives tokens entries) :
    Derives (token :: tokens) ((name, .scalar newName datatype) :: entries)
  | list {token : Token} {name : Option String} {type opening closing : Fragment}
      {content tokens : List Token} {element : Declared} {entries : List Entry}
      (head : token.Introduces name none type)
      (known : TypeName.ofName? type.toString = some (.container .list))
      (inner : Derives content [(none, element)]) (rest : Derives tokens entries) :
    Derives (token :: .opening opening :: (content ++ .closing closing :: tokens))
      ((name, .list element) :: entries)
  | struct {token : Token} {name : Option String} {type opening closing : Fragment}
      {content tokens : List Token} {fields entries : List Entry}
      (head : token.Introduces name none type)
      (known : TypeName.ofName? type.toString = some (.container .struct))
      (inner : Derives content fields) (rest : Derives tokens entries) :
    Derives (token :: .opening opening :: (content ++ .closing closing :: tokens))
      ((name, .struct fields) :: entries)

/-- Entries that are read one after the other. -/
theorem Derives.append {tokens others : List Token} {entries more : List Entry}
    (h : Derives tokens entries) (hmore : Derives others more) :
    Derives (tokens ++ others) (entries ++ more) := by
  induction h with
  | nil => exact hmore
  | scalar head known _ ih => exact .scalar head known ih
  | list head known inner _ _ ih => simpa using Derives.list head known inner ih
  | struct head known inner _ _ ih => simpa using Derives.struct head known inner ih

end NestedRecords
