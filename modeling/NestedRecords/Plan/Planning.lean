import NestedRecords.Assoc
import NestedRecords.Path
import NestedRecords.Plan
import NestedRecords.Schema

/-!
# Planning

A plan is made by walking the tree of a schema from the first field to the last, parents before
their fields, and keeping the list of columns that a frame would have at that point. A list is
exploded in place; a struct gives way to one column for each of its fields.

The two strategies differ in how those columns are called. Eager names are full json paths.
Deferred names are the fields' own, and full paths only where one of those is taken.
-/

namespace NestedRecords

/-- What taking some columns apart comes to. -/
structure Unfolding where
  /-- The columns that remain. -/
  columns : List String
  steps : List Step
  leaves : List Leaf
  deriving DecidableEq, Repr

namespace Unfolding

/-- The columns of some fields behind a lead. -/
def fieldColumns (lead : String) (fields : Fields) : List String :=
  fields.map fun field => lead ++ field.1

/-- Whether a column of some fields is already taken by a column other than their parent. -/
def collides (columns : List String) (column lead : String) (fields : Fields) : Bool :=
  (fieldColumns lead fields).any (· ∈ columns.filter (· ≠ column))

/-- The lead of full json paths below a path. -/
def pathLead (separator path : String) : String := if path = "" then "" else path ++ separator

/-- The first of some leads whose columns are free. -/
def chooseLead (columns : List String) (column : String) (fields : Fields) (leads : List String) :
    Except PlanError String :=
  match leads.find? (!collides columns column · fields) with
  | some lead => .ok lead
  | none => .error (.duplicateColumns column)

/-- A lead that is chosen is one of those that were given, and its columns are free. -/
theorem of_chooseLead {columns : List String} {column lead : String} {fields : Fields}
    {leads : List String} (h : chooseLead columns column fields leads = .ok lead) :
    lead ∈ leads ∧ collides columns column lead fields = false := by
  unfold chooseLead at h
  split at h
  · rename_i chosen hchosen
    obtain rfl := Except.ok.inj h
    exact ⟨List.mem_of_find?_eq_some hchosen, by simpa using List.find?_some hchosen⟩
  · contradiction

/-- Some lead is chosen if there is one whose columns are free. -/
theorem exists_chooseLead {columns : List String} {column lead : String} {fields : Fields}
    {leads : List String} (hlead : lead ∈ leads)
    (hfree : collides columns column lead fields = false) :
    ∃ chosen, chooseLead columns column fields leads = .ok chosen := by
  unfold chooseLead
  split
  · rename_i chosen _
    exact ⟨chosen, rfl⟩
  · rename_i hnone
    exact absurd hfree (by simpa using List.find?_eq_none.mp hnone lead hlead)

/-- The leads to be tried below a path, in order. -/
def leadsOf (separator : String) (strategy : Strategy) (path : String) : List String :=
  match strategy with
  | .eager => [pathLead separator path]
  | .deferred => ["", pathLead separator path]

/-- Puts other columns in the place of the first one of a given name. -/
def replaceColumn (column : String) (others : List String) : List String → Option (List String)
  | [] => none
  | c :: rest =>
    if c = column then some (others ++ rest) else (replaceColumn column others rest).map (c :: ·)

mutual

/-- Takes apart the column of a type, which is read from a json path. -/
def ofTree (separator : String) (strategy : Strategy) (columns : List String)
    (column path : String) : Tree → Except PlanError Unfolding
  | .scalar datatype => .ok { columns, steps := [], leaves := [{ column, path, datatype }] }
  | .list element => do
    let inner ← ofTree separator strategy columns column path element
    return { inner with steps := .explode column :: inner.steps }
  | .struct fields => do
    let lead ← chooseLead columns column fields (leadsOf separator strategy path)
    match replaceColumn column (fieldColumns lead fields) columns with
    | none => throw (.absentColumn column)
    | some unnested =>
      let inner ← ofFields separator strategy unnested lead path fields
      return { inner with steps := .unnest column lead (fields.map Prod.fst) :: inner.steps }

/-- Takes apart the columns of some fields behind a lead, one after the other. -/
def ofFields (separator : String) (strategy : Strategy) (columns : List String)
    (lead path : String) : List (String × Tree) → Except PlanError Unfolding
  | [] => .ok { columns, steps := [], leaves := [] }
  | (name, type) :: rest => do
    let first ← ofTree separator strategy columns (lead ++ name) (joinPath separator [path, name])
      type
    let others ← ofFields separator strategy first.columns lead path rest
    return { columns := others.columns
             steps := first.steps ++ others.steps
             leaves := first.leaves ++ others.leaves }

end

/-- The new names of the leaf columns that are not yet called as their path is bound. -/
def newNames (bindings : List (String × String)) (leaves : List Leaf) :
    Except PlanError (List (String × String)) :=
  leaves.foldlM (fun map leaf =>
    match bindings.lookup leaf.path with
    | none => .error (.unboundPath leaf.path)
    | some column =>
      .ok (if column = leaf.column then map else Assoc.insert leaf.column column map)) []

end Unfolding

/-- The plan that flattens records of a schema. -/
def Plan.ofSchema (schema : Schema) (strategy : Strategy := .eager) : Except PlanError Plan := do
  let unfolding ← Unfolding.ofFields schema.separator strategy (schema.fields.map Prod.fst) "" ""
    schema.fields
  let rename ← Unfolding.newNames schema.bindings unfolding.leaves
  return { strategy
           fields := schema.fields
           steps := unfolding.steps
           leaves := unfolding.leaves
           rename
           select := schema.columns }

end NestedRecords
