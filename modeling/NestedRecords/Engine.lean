import NestedRecords.Datatype

/-!
# Tabular engines

A plan can be run by anything that holds columns and knows five operations on them. An `Engine`
gives these operations a meaning on its own kind of frame, with whatever effects it has; frames
are values, so every operation gives a new one.
-/

namespace NestedRecords

/-- What can be done to a frame. -/
inductive Operation
  /-- Gives every item of the lists in a column a row of its own. -/
  | explode (column : String)
  /-- Replaces a column of structs by one column for each of some fields, called by the field's
  name behind `lead`. -/
  | unnest (column lead : String) (fields : List String)
  /-- Gives some columns new names, all at once. -/
  | rename (mapping : List (String × String))
  /-- Keeps some columns, in the order given. -/
  | select (columns : List String)
  /-- Adds a column of nulls. -/
  | addNulls (column : String) (datatype : Datatype)
  deriving DecidableEq, Repr

/-- Frames of a type `F` with effects `m`: their columns and what the operations do to them. -/
structure Engine (m : Type → Type) (F : Type) where
  columns : F → List String
  perform : Operation → F → m F

/-- The effects of an engine that keeps a list of the operations asked of it. -/
abbrev Traced (ε : Type) := ExceptT ε (StateM (List Operation))

/-- An engine that keeps a list of the operations asked of it, the failing one included. -/
def Engine.traced {ε F : Type} (engine : Engine (Except ε) F) : Engine (Traced ε) F where
  columns := engine.columns
  perform operation frame := do
    modify (· ++ [operation])
    liftExcept (engine.perform operation frame)

end NestedRecords
