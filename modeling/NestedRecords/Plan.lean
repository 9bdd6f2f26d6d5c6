import NestedRecords.Options
import NestedRecords.Tree

/-!
# Plans

A `Plan` says how to flatten a frame of nested records: a list of steps, each of which takes
one column apart, then one renaming and one selection of columns. It also knows its leaves,
which are the columns that remain once every step has run, and the entries of the record it
was made for, from which it tells the columns it wants to begin with.
-/

namespace NestedRecords

/-- Takes a column of nested values one level apart. -/
inductive Step
  /-- Gives every item of the lists in a column a row of its own. -/
  | explode (column : String)
  /-- Replaces a column of structs by one column for each of some fields, called by the field's
  name behind `lead`. -/
  | unnest (column lead : String) (fields : List String)
  deriving DecidableEq, Repr

/-- The column that a step takes apart. -/
def Step.column : Step → String
  | explode column => column
  | unnest column _ _ => column

/-- A column of scalars and the json path it came from. -/
structure Leaf where
  column : String
  path : String
  datatype : Datatype
  deriving DecidableEq, Repr

/-- How to flatten a frame of nested records. -/
structure Plan where
  strategy : Strategy
  /-- The entries of a record. -/
  fields : Fields
  steps : List Step
  leaves : List Leaf
  /-- The new names of the leaf columns that get one. -/
  rename : List (String × String)
  /-- The output columns. -/
  select : List String
  deriving DecidableEq, Repr

/-- Why no plan can be made. -/
inductive PlanError
  /-- Taking this column apart would make two columns of one name, whatever their names. -/
  | duplicateColumns (column : String)
  /-- A column is to be taken apart that is not there. -/
  | absentColumn (column : String)
  /-- No column is bound to the path of a leaf. -/
  | unboundPath (path : String)
  deriving DecidableEq, Repr

/-- The wording of the error. -/
def PlanError.message : PlanError → String
  | duplicateColumns column => "Unnesting \"" ++ column ++ "\" would produce duplicate columns"
  | absentColumn column => "This should not happen: " ++ column ++ " missing from planned columns"
  | unboundPath path => "No column bound to json path \"" ++ path ++ "\""

namespace Tree

mutual

/-- The columns, among those present, that an entry of the record is read from. -/
def sources (present : List String) (name : String) : Tree → List String
  | struct fields =>
    if name ∈ present then [name]
    else if name = "" then fieldSources present fields
    else []
  | scalar _ | list _ => if name ∈ present then [name] else []

/-- The columns, among those present, that some entries of the record are read from. -/
def fieldSources (present : List String) : List (String × Tree) → List String
  | [] => []
  | (name, type) :: rest => sources present name type ++ fieldSources present rest

end

end Tree

namespace Plan

/--
The columns a plan begins with, in the order of the record. An anonymous struct may come
already spread into columns; then its fields are taken instead.
-/
def sourceColumns (plan : Plan) (present : List String) : List String :=
  (Tree.fieldSources present plan.fields).eraseDups

/-- The leaf columns that are not there once the steps have run. -/
def missingColumns (plan : Plan) (present : List String) : List (String × Datatype) :=
  (plan.leaves.filter (·.column ∉ present)).map fun leaf => (leaf.column, leaf.datatype)

end Plan

end NestedRecords
