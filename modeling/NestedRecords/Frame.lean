import NestedRecords.Assoc
import NestedRecords.Engine
import NestedRecords.Value
import NestedRecords.Value.MemberOrder

/-!
# Frames of records

A `Frame` is a table with json values in its cells. A row is a list of named cells; a column
without a cell in some row is null there. Beside its rows a frame remembers the datatypes of the
columns of nulls that were added to it. That memory follows a renaming and survives everything
else, so a column that is gone may still have a datatype in it.

The five operations fail only on their own account: on a column that is not there or would be
there twice, or on a cell that holds neither what the operation takes apart nor null.
-/

namespace NestedRecords

/-! ### Taking values apart -/

namespace Value

/-- The items that a cell of lists gives rows to; nothing to list counts as one null. -/
def items? : Value → Option (List Value)
  | null | array [] => some [null]
  | array items => some items
  | _ => none

/-- The members that a cell of structs gives columns to. -/
def members? : Value → Option (List (String × Value))
  | null => some []
  | object members => some members
  | _ => none

/-- The named cells of a record; one that is no object has a single anonymous cell. -/
def entries : Value → List (String × Value)
  | object members => members
  | record => [("", record)]

end Value

/-- The cells of a row by column; the first cell of a column is the one that counts. -/
abbrev Row := List (String × Value)

/-- The value of a column in a row. -/
def Row.cell (row : Row) (column : String) : Value := (row.lookup column).getD .null

/-- Setting a cell changes that cell alone. -/
theorem Row.cell_insert (row : Row) (column : String) (value : Value) (c : String) :
    Row.cell (Assoc.insert column value row) c = if c = column then value else row.cell c := by
  rw [Row.cell, Assoc.lookup_insert]
  split <;> rfl

/-- Why an operation on a frame fails. -/
inductive FrameError
  /-- There is no such column. -/
  | unknownColumn (column : String)
  /-- There is such a column already. -/
  | existingColumn (column : String)
  /-- Two columns would get this name. -/
  | renamedTwice (column : String)
  /-- A cell of the column is neither a list nor null. -/
  | notLists (column : String)
  /-- A cell of the column is neither a struct nor null. -/
  | notStructs (column : String)
  deriving DecidableEq, Repr

/-- The wording of the error. -/
def FrameError.message : FrameError → String
  | unknownColumn column => "Unknown column \"" ++ column ++ "\""
  | existingColumn column => "Column \"" ++ column ++ "\" already exists"
  | renamedTwice column => "Renaming produces duplicate column \"" ++ column ++ "\""
  | notLists column => "Column \"" ++ column ++ "\" does not hold lists"
  | notStructs column => "Column \"" ++ column ++ "\" does not hold structs"

/-- A table of json values. -/
structure Frame where
  columns : List String
  rows : List Row
  /-- The datatypes of the columns of nulls. -/
  datatypes : List (String × Datatype) := []
  deriving DecidableEq

namespace Frame

/-! ### From and to records -/

/-- The frame of some records, with their columns in the order in which they first come up. -/
def ofRecords (records : List Value) : Frame :=
  let rows := records.map Value.entries
  { columns := (rows.flatMap Assoc.keys).eraseDups, rows }

/-- The columns in the order of the members of a record. -/
def recordColumns (frame : Frame) : List String :=
  MemberOrder.arrangeBy id frame.columns.eraseDups

/-- The rows of a frame with one cell for each column. -/
def records (frame : Frame) : List Row :=
  let columns := frame.recordColumns
  frame.rows.map fun row => columns.map fun column => (column, row.cell column)

/-- The datatype that a column of nulls was added with. -/
def datatypeOf? (frame : Frame) (column : String) : Option Datatype :=
  frame.datatypes.lookup column

/-! ### Operations -/

/-- Checks that a column is there. -/
def requireColumn (frame : Frame) (column : String) : Except FrameError Unit :=
  if column ∈ frame.columns then .ok () else .error (.unknownColumn column)

/-- The rows that a row gives way to when a column is exploded. -/
def explodeRow (column : String) (row : Row) : Except FrameError (List Row) :=
  match (row.cell column).items? with
  | some items => .ok (items.map fun item => Assoc.insert column item row)
  | none => .error (.notLists column)

/-- Gives every item of the lists in a column a row of its own. -/
def explode (frame : Frame) (column : String) : Except FrameError Frame := do
  frame.requireColumn column
  let rows ← frame.rows.mapM (explodeRow column)
  return { frame with rows := rows.flatten }

/-- The row that a row gives way to when a column is unnested. -/
def unnestRow (columns : List String) (column lead : String) (fields : List String) (row : Row) :
    Except FrameError Row :=
  match (row.cell column).members? with
  | some members =>
    .ok (columns.flatMap fun existing =>
      if existing = column then
        fields.map fun field => (lead ++ field, (members.lookup field).getD .null)
      else [(existing, row.cell existing)])
  | none => .error (.notStructs column)

/-- Replaces a column of structs by one column for each of some fields. -/
def unnest (frame : Frame) (column lead : String) (fields : List String) :
    Except FrameError Frame := do
  frame.requireColumn column
  let unnested := fields.map (lead ++ ·)
  match unnested.find? fun name => name ≠ column ∧ name ∈ frame.columns with
  | some name => throw (.existingColumn name)
  | none =>
    let rows ← frame.rows.mapM (unnestRow frame.columns column lead fields)
    let columns := frame.columns.flatMap fun existing =>
      if existing = column then unnested else [existing]
    return { frame with columns, rows }

/-- The first element of a list that has come up before. -/
def firstRepeat? (seen : List String) : List String → Option String
  | [] => none
  | name :: rest => if name ∈ seen then some name else firstRepeat? (name :: seen) rest

/-- Gives some columns new names, all at once. -/
def rename (frame : Frame) (mapping : List (String × String)) : Except FrameError Frame :=
  let renamed (name : String) := (mapping.lookup name).getD name
  let columns := frame.columns.map renamed
  match firstRepeat? [] columns with
  | some name => .error (.renamedTwice name)
  | none =>
    .ok { columns
          rows := frame.rows.map fun row => row.map fun cell => (renamed cell.1, cell.2)
          datatypes := Assoc.ofList (frame.datatypes.map fun entry => (renamed entry.1, entry.2)) }

/-- Keeps some columns, in the order given. -/
def select (frame : Frame) (columns : List String) : Except FrameError Frame := do
  columns.forM frame.requireColumn
  return { frame with
    columns
    rows := frame.rows.map fun row => columns.map fun column => (column, row.cell column) }

/-- Adds a column of nulls and remembers its datatype. -/
def addNulls (frame : Frame) (column : String) (datatype : Datatype) : Except FrameError Frame :=
  if column ∈ frame.columns then .error (.existingColumn column)
  else
    .ok { columns := frame.columns ++ [column]
          rows := frame.rows.map (Assoc.insert column .null)
          datatypes := Assoc.insert column datatype frame.datatypes }

/-- Does an operation to a frame. -/
def perform : Operation → Frame → Except FrameError Frame
  | .explode column, frame => frame.explode column
  | .unnest column lead fields, frame => frame.unnest column lead fields
  | .rename mapping, frame => frame.rename mapping
  | .select columns, frame => frame.select columns
  | .addNulls column datatype, frame => frame.addNulls column datatype

/-- The engine that works on frames of records. -/
def engine : Engine (Except FrameError) Frame where
  columns := Frame.columns
  perform := perform

end Frame

end NestedRecords
