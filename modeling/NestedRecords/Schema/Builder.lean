import NestedRecords.Path
import NestedRecords.Schema
import NestedRecords.Schema.Error
import NestedRecords.Token

/-!
# Building a schema from tokens

A `Builder` is what has been read of a schema text: the containers that are still open, the
finished entries of the record, and the leaves seen so far. `Builder.apply` reads one more
token or rejects it; a rejected token is one that no continuation of the text could mend.

The names taken by an open container are those of its finished entries, because an entry that
is itself a container is finished before its parent can take another one.
-/

namespace NestedRecords

/-- What an open container holds so far. -/
inductive Content
  /-- A list, with its element once that is finished. -/
  | list (element : Option Tree)
  /-- A struct, with its finished fields. -/
  | struct (fields : Fields)
  deriving DecidableEq, Repr

namespace Content

/-- The content of a container whose bracket was just opened. -/
def new : Container → Content
  | .list => .list none
  | .struct => .struct []

/-- The content with one more finished entry. -/
def add (name : String) (type : Tree) : Content → Content
  | .list _ => .list (some type)
  | .struct fields => .struct (fields ++ [(name, type)])

/-- The type of a container with this content; a list without an element has none. -/
def tree? : Content → Option Tree
  | .list element => element.map .list
  | .struct fields => some (.struct fields)

end Content

/-- A container whose closing bracket has not been read. -/
structure OpenContainer where
  /-- Its name, empty for an anonymous container. -/
  name : String
  /-- The word that names its kind. -/
  keyword : Fragment
  /-- Whether its opening bracket has been read. -/
  opened : Bool
  content : Content
  deriving DecidableEq, Repr

/-- A leaf of the tree: the json path it reads and the column it fills. -/
structure BoundLeaf where
  path : String
  column : String
  datatype : Datatype
  deriving DecidableEq, Repr

/-- What has been read of a schema text. -/
structure Builder where
  /-- The open containers, innermost first. -/
  containers : List OpenContainer := []
  /-- The finished entries of the record. -/
  fields : Fields := []
  /-- The leaves in the order in which they were read. -/
  leaves : List BoundLeaf := []
  deriving DecidableEq, Repr

namespace Builder

/-! ### Checks -/

/-- Checks that the innermost container has its opening bracket. -/
def checkOpened (b : Builder) (site : Fragment) : Except Rejection Unit :=
  match b.containers with
  | c :: _ => if c.opened then .ok () else .error ⟨.missingOpening c.keyword.toString, site⟩
  | [] => .ok ()

/-- Checks that the innermost container, if it is a list, can take an element of this name. -/
def checkElement (b : Builder) (name : String) (site : Fragment) : Except Rejection Unit :=
  match b.containers with
  | ⟨_, keyword, _, .list element⟩ :: _ =>
    if name ≠ "" then .error ⟨.namedElement name, site⟩
    else if element.isSome then .error ⟨.secondElement keyword.toString, site⟩
    else .ok ()
  | _ => .ok ()

/-- The innermost struct or the record itself: its name and finished entries. -/
def siblings? (b : Builder) : Option (String × Fields) :=
  match b.containers with
  | [] => some ("", b.fields)
  | ⟨name, _, _, .struct fields⟩ :: _ => some (name, fields)
  | ⟨_, _, _, .list _⟩ :: _ => none

/-- Checks that no entry beside the next one has its name. -/
def checkName (b : Builder) (name : String) (site : Fragment) : Except Rejection Unit :=
  match b.siblings? with
  | some (parent, fields) =>
    if name ∈ fields.map Prod.fst then .error ⟨.duplicateAttribute parent name, site⟩ else .ok ()
  | none => .ok ()

/-! ### Entries -/

/-- Adds a finished entry to the innermost container, or to the record. -/
def attach (b : Builder) (name : String) (type : Tree) : Builder :=
  match b.containers with
  | [] => { b with fields := b.fields ++ [(name, type)] }
  | c :: outer => { b with containers := { c with content := c.content.add name type } :: outer }

/-- The json path of a leaf that is read next. -/
def pathOf (b : Builder) (separator name : String) : String :=
  joinPath separator ((b.containers.map OpenContainer.name).reverse ++ [name])

/--
The column of a leaf that is read next, if it gets no new name: its own name, else that of the
nearest container that has one.
-/
def defaultColumn (b : Builder) (name : String) : String :=
  ((name :: b.containers.map OpenContainer.name).find? (· ≠ "")).getD ""

/-- Reads a scalar type, its name and its new name. -/
def addLeaf (separator : String) (b : Builder) (datatype : Datatype) (type : Fragment)
    (name newName : Option Fragment) : Except Rejection Builder := do
  let site := name.getD type
  let ownName := (name.map Fragment.toString).getD ""
  b.checkElement ownName site
  let path := b.pathOf separator ownName
  let column := (newName.map Fragment.toString).getD (b.defaultColumn ownName)
  if column ∈ b.leaves.map BoundLeaf.column then
    throw ⟨.duplicateColumn column, newName.getD site⟩
  if path ∈ b.leaves.map BoundLeaf.path then
    throw ⟨.duplicatePath path, site⟩
  b.checkName ownName site
  let leaf : BoundLeaf := { path, column, datatype }
  return { b with leaves := b.leaves ++ [leaf] }.attach ownName (.scalar datatype)

/-- Reads the keyword of a container and its name. -/
def addContainer (b : Builder) (kind : Container) (keyword : Fragment) (name : Option Fragment) :
    Except Rejection Builder := do
  let site := name.getD keyword
  let ownName := (name.map Fragment.toString).getD ""
  b.checkElement ownName site
  b.checkName ownName site
  let container : OpenContainer :=
    { name := ownName, keyword, opened := false, content := .new kind }
  return { b with containers := container :: b.containers }

/-- Reads an entry: a type, its name and its new name. Only a scalar can have a new name. -/
def addEntry (separator : String) (b : Builder) (type : Fragment) (name newName : Option Fragment) :
    Except Rejection Builder := do
  b.checkOpened (name.getD type)
  match TypeName.ofName? type.toString, newName with
  | none, _ => throw ⟨.unknownDatatype type.toString, type⟩
  | some (.scalar datatype), _ => b.addLeaf separator datatype type name newName
  | some (.container kind), none => b.addContainer kind type name
  | some (.container _), some newName =>
    throw ⟨.renamedContainer type.toString ((name.map Fragment.toString).getD "")
      newName.toString, newName⟩

/-! ### Brackets -/

/-- Reads an opening bracket. -/
def openContainer (b : Builder) (delimiter : Fragment) : Except Rejection Builder :=
  match b.containers with
  | c :: outer =>
    if c.opened then .error ⟨.unexpectedOpening delimiter.toString, delimiter⟩
    else .ok { b with containers := { c with opened := true } :: outer }
  | [] => .error ⟨.unexpectedOpening delimiter.toString, delimiter⟩

/-- Reads a closing bracket. -/
def closeContainer (b : Builder) (delimiter : Fragment) : Except Rejection Builder :=
  match b.containers with
  | c :: outer =>
    if c.opened then
      match c.content.tree? with
      | some type => .ok ({ b with containers := outer }.attach c.name type)
      | none => .error ⟨.missingElement c.keyword.toString, delimiter⟩
    else .error ⟨.missingOpening c.keyword.toString, delimiter⟩
  | [] => .error ⟨.unexpectedClosing delimiter.toString, delimiter⟩

/-! ### Whole texts -/

/-- Reads one token. -/
def apply (separator : String) (b : Builder) : Token → Except Rejection Builder
  | .renamed name newName type => b.addEntry separator type (some name) (some newName)
  | .attribute name type => b.addEntry separator type (some name) none
  | .lone type => b.addEntry separator type none none
  | .opening delimiter => b.openContainer delimiter
  | .closing delimiter => b.closeContainer delimiter

/-- The schema that has been read, if no container is left open. -/
def finish (separator : String) (b : Builder) : Except Rejection Schema :=
  match b.containers with
  | c :: _ =>
    if c.opened then
      .error ⟨.unterminated c.keyword.toString b.containers.length, c.keyword⟩
    else .error ⟨.missingOpening c.keyword.toString, c.keyword⟩
  | [] =>
    .ok { fields := b.fields
          bindings := b.leaves.map fun leaf => (leaf.path, leaf.column)
          columns := b.leaves.map BoundLeaf.column
          datatypes := b.leaves.map BoundLeaf.datatype
          separator }

end Builder

end NestedRecords
