import NestedRecords.Frame
import NestedRecords.Tree

/-!
# Flattening by structure

What unpacking a record should come to, told by recursion on its type alone: there are no frames
here, no columns and no plan. A value of a type has *rows*, and a row has one value for each leaf
of the type, in the order of the leaves.

* A scalar has one row, which is the value itself, whatever it is.
* A list has the rows of its items, one item after the other.
* A struct has a row for every choice of a row from each of its fields, and the rows of the first
  field vary slowest.

Where there is nothing to take apart, which is to say null, an empty list or a missing member,
there is a single row of nulls. A value that is neither null nor of the shape its type asks for
does not fit, and then its rows mean nothing: `Tree.Fits` says which values do.
-/

namespace NestedRecords

namespace Tree

/-! ### Values that fit -/

/-- **Fitting values.** A list-typed value has to be an array or null, a struct-typed one an object
or null, and so on for everything in them; scalars take any value. -/
inductive Fits : Tree → Value → Prop
  | scalar (datatype : Datatype) (value : Value) : Fits (.scalar datatype) value
  | null (type : Tree) : Fits type .null
  | array {element : Tree} {items : List Value} (h : ∀ item ∈ items, Fits element item) :
    Fits (.list element) (.array items)
  | object {fields : List (String × Tree)} {members : Row}
    (h : ∀ field ∈ fields, Fits field.2 (members.cell field.1)) :
    Fits (.struct fields) (.object members)

/-- Each of some fields fits the member of its name. -/
def FieldsFit (fields : Fields) (members : Row) : Prop :=
  ∀ field ∈ fields, field.2.Fits (members.cell field.1)

/-- A list fits when the items do that it gives rows to. -/
theorem fits_list_iff {element : Tree} {value : Value} {items : List Value}
    (h : value.items? = some items) :
    (list element).Fits value ↔ ∀ item ∈ items, element.Fits item := by
  have hnull : ∀ item ∈ [Value.null], element.Fits item := by
    intro item hmem
    obtain rfl := List.mem_singleton.mp hmem
    exact .null element
  match value, h with
  | .null, rfl => exact ⟨fun _ => hnull, fun _ => .null _⟩
  | .array [], rfl => exact ⟨fun _ => hnull, fun _ => .array (List.forall_mem_nil _)⟩
  | .array (first :: rest), rfl =>
    constructor
    · rintro ⟨⟩
      assumption
    · exact .array

/-- A struct fits when its fields fit the members that it gives columns to. -/
theorem fits_struct_iff {fields : Fields} {value : Value} {members : Row}
    (h : value.members? = some members) :
    (struct fields).Fits value ↔ FieldsFit fields members := by
  match value, h with
  | .null, rfl => exact ⟨fun _ field _ => .null field.2, fun _ => .null _⟩
  | .object _, rfl =>
    constructor
    · rintro ⟨⟩
      assumption
    · exact .object

theorem not_fits_list {element : Tree} {value : Value} (h : value.items? = none) :
    ¬(list element).Fits value := by
  intro hfits
  cases hfits with
  | null => contradiction
  | @array _ items _ => cases items <;> contradiction

theorem not_fits_struct {fields : Fields} {value : Value} (h : value.members? = none) :
    ¬(struct fields).Fits value := by
  intro hfits
  cases hfits <;> contradiction

theorem fieldsFit_append {fields others : Fields} {members : Row} :
    FieldsFit (fields ++ others) members ↔ FieldsFit fields members ∧ FieldsFit others members :=
  List.forall_mem_append

theorem fieldsFit_cons {name : String} {type : Tree} {fields : Fields} {members : Row} :
    FieldsFit ((name, type) :: fields) members ↔
      type.Fits (members.cell name) ∧ FieldsFit fields members :=
  List.forall_mem_cons

/-- Fields fit the same members under other names. -/
theorem fieldsFit_map {fields : Fields} {members others : Row} (g : String → String)
    (h : ∀ name ∈ fields.map Prod.fst, Row.cell members (g name) = Row.cell others name) :
    FieldsFit (fields.map fun field => (g field.1, field.2)) members ↔
      FieldsFit fields others := by
  unfold FieldsFit
  rw [List.forall_mem_map]
  refine forall_congr' fun field => forall_congr' fun hmem => ?_
  rw [h field.1 (List.mem_map_of_mem hmem)]

theorem fieldsFit_congr {fields : Fields} {members others : Row}
    (h : ∀ name ∈ fields.map Prod.fst, Row.cell members name = Row.cell others name) :
    FieldsFit fields members ↔ FieldsFit fields others := by
  simpa using fieldsFit_map id h

/-! ### Rows -/

mutual

/-- One null for each leaf of a type. -/
def nulls : Tree → List Value
  | scalar _ => [.null]
  | list element => nulls element
  | struct fields => fieldNulls fields

/-- One null for each leaf of some fields. -/
def fieldNulls : List (String × Tree) → List Value
  | [] => []
  | (_, type) :: rest => nulls type ++ fieldNulls rest

end

mutual

/-- **The rows of a value.** -/
def rows : Tree → Value → List (List Value)
  | scalar _, value => [[value]]
  | list element, .array (first :: items) => (first :: items).flatMap fun item => rows element item
  | list element, _ => [nulls element]
  | struct fields, .object members => fieldRows fields members
  | struct fields, _ => [fieldNulls fields]

/-- The rows of some fields of the same members: those of the first field, each with all rows of
the others behind it. -/
def fieldRows : List (String × Tree) → Row → List (List Value)
  | [], _ => [[]]
  | (name, type) :: rest, members =>
    (rows type (members.cell name)).flatMap fun row => (fieldRows rest members).map (row ++ ·)

end

theorem rows_null (type : Tree) : type.rows .null = [type.nulls] := by
  cases type <;> rfl

/-- The rows of a list are those of the items that it gives rows to. -/
theorem rows_list {value : Value} {items : List Value} (h : value.items? = some items)
    (element : Tree) : (list element).rows value = items.flatMap element.rows := by
  have hnull : [Value.null].flatMap element.rows = [element.nulls] := by
    rw [List.flatMap_singleton, rows_null]
  match value, h with
  | .null, rfl => exact hnull.symm
  | .array [], rfl => exact hnull.symm
  | .array (first :: rest), rfl => rfl

/-- Fields without members have a single row of nulls. -/
theorem fieldRows_of_null {fields : Fields} {members : Row}
    (h : ∀ name ∈ fields.map Prod.fst, members.cell name = .null) :
    fieldRows fields members = [fieldNulls fields] := by
  induction fields with
  | nil => rfl
  | cons field rest ih =>
    obtain ⟨name, type⟩ := field
    obtain ⟨hname, hrest⟩ := List.forall_mem_cons.mp h
    rw [fieldRows, hname, rows_null, List.flatMap_singleton, ih hrest, fieldNulls]
    rfl

/-- The rows of a struct are those of the members that it gives columns to. -/
theorem rows_struct {value : Value} {members : Row} (h : value.members? = some members)
    (fields : Fields) : (struct fields).rows value = fieldRows fields members := by
  match value, h with
  | .null, rfl => rw [rows_null, nulls, fieldRows_of_null fun _ _ => rfl]
  | .object _, rfl => rw [rows]

theorem fieldRows_append (fields others : Fields) (members : Row) :
    fieldRows (fields ++ others) members =
      (fieldRows fields members).flatMap fun row => (fieldRows others members).map (row ++ ·) := by
  induction fields with
  | nil => simp [fieldRows]
  | cons field rest ih =>
    obtain ⟨name, type⟩ := field
    rw [List.cons_append, fieldRows, fieldRows, List.flatMap_assoc, ih]
    simp only [List.map_flatMap, List.flatMap_map, List.map_map, Function.comp_def,
      List.append_assoc]

/-- Fields have the same rows under other names. -/
theorem fieldRows_map {fields : Fields} {members others : Row} (g : String → String)
    (h : ∀ name ∈ fields.map Prod.fst, Row.cell members (g name) = Row.cell others name) :
    fieldRows (fields.map fun field => (g field.1, field.2)) members = fieldRows fields others := by
  induction fields with
  | nil => rfl
  | cons field rest ih =>
    obtain ⟨name, type⟩ := field
    obtain ⟨hname, hrest⟩ := List.forall_mem_cons.mp h
    rw [List.map_cons, fieldRows, fieldRows, hname, ih hrest]

theorem fieldRows_congr {fields : Fields} {members others : Row}
    (h : ∀ name ∈ fields.map Prod.fst, Row.cell members name = Row.cell others name) :
    fieldRows fields members = fieldRows fields others := by
  simpa using fieldRows_map id h

end Tree

end NestedRecords
