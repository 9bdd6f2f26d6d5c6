import NestedRecords.Assoc
import NestedRecords.Frame
import NestedRecords.Number
import NestedRecords.Tree

/-!
# Inferring types from records

The type of some records is gathered value by value. A null and an empty list say nothing; a
whole number says `int64`, which gives way to the `float64` of any other number; the items of a
list all bear on its element, and the members of an object on the fields of a struct. A place
that only nulls and empty lists were seen at has no type yet, and a field without a type is
left out.
-/

namespace NestedRecords

/-- Why records have no type; the name is that of the nearest named place. -/
inductive InferenceError
  /-- No datatype stands for truth values. -/
  | boolean (name : String)
  /-- Values of different types were seen at one place. -/
  | conflict (name : String)
  deriving DecidableEq, Repr

/-- The wording of the error. -/
def InferenceError.message : InferenceError → String
  | boolean name => "Cannot infer a datatype for boolean values of \"" ++ name ++ "\""
  | conflict name => "Conflicting datatypes for \"" ++ name ++ "\""

namespace Inference

/-- The datatype that a number asks for. -/
def numberDatatype (x : Float) : Datatype := if isWhole x then .int64 else .float64

/-- The type of a place at which a number is seen. -/
def mergeNumber (name : String) (seen : Option Tree) (x : Float) : Except InferenceError Tree :=
  match seen with
  | none | some (.scalar .int64) => .ok (.scalar (numberDatatype x))
  | some (.scalar .float64) => .ok (.scalar .float64)
  | some _ => .error (.conflict name)

/-- The type of a place at which a string is seen. -/
def mergeString (name : String) (seen : Option Tree) : Except InferenceError Tree :=
  match seen with
  | none | some (.scalar .utf8) => .ok (.scalar .utf8)
  | some _ => .error (.conflict name)

/-- What is known of the element of a list at a place at which a list is seen. -/
def elementOf (name : String) (seen : Option Tree) : Except InferenceError (Option Tree) :=
  match seen with
  | none => .ok none
  | some (.list element) => .ok (some element)
  | some _ => .error (.conflict name)

/-- What is known of the fields of a struct at a place at which an object is seen. -/
def fieldsOf (name : String) (seen : Option Tree) : Except InferenceError Fields :=
  match seen with
  | none => .ok []
  | some (.struct fields) => .ok fields
  | some _ => .error (.conflict name)

/-- The fields with the type of one of them set, if it has one by now. -/
def setField (name : String) (type : Option Tree) (fields : Fields) : Fields :=
  match type with
  | some type => Assoc.insert name type fields
  | none => fields

mutual

/-- The type of a place once one more value is seen there. -/
def mergeValue (name : String) (seen : Option Tree) : Value → Except InferenceError (Option Tree)
  | .null => .ok seen
  | .bool _ => .error (.boolean name)
  | .number x => some <$> mergeNumber name seen x
  | .string _ => some <$> mergeString name seen
  | .array items => do
    let element ← mergeItems name (← elementOf name seen) items
    return element.map .list
  | .object members => do
    return some (.struct (← mergeMembers (← fieldsOf name seen) members))

/-- The element type of a list once its items are seen. -/
def mergeItems (name : String) (seen : Option Tree) :
    List Value → Except InferenceError (Option Tree)
  | [] => .ok seen
  | item :: rest => do mergeItems name (← mergeValue name seen item) rest

/-- The fields of a struct once the members of an object are seen. -/
def mergeMembers (fields : Fields) : List (String × Value) → Except InferenceError Fields
  | [] => .ok fields
  | (name, value) :: rest => do
    let type ← mergeValue name (fields.lookup name) value
    mergeMembers (setField name type fields) rest

end

end Inference

/-- The fields of some records; a record that is no object counts for an anonymous field. -/
def inferFields (records : List Value) : Except InferenceError Fields :=
  records.foldlM (fun fields record => Inference.mergeMembers fields record.entries) []

end NestedRecords
