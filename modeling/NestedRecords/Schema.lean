import NestedRecords.Tree

/-!
# Schemas

A schema is what a schema text says about some records: the tree of their types, and for each
leaf of that tree its json path, the output column it fills and the datatype of that column.

The parts are independent of each other here, since a schema may also be put together by hand;
one that was read from a text has its leaves in the order of the tree throughout.
-/

namespace NestedRecords

/-- The types of some records and the columns their leaves fill. -/
structure Schema where
  /-- The entries of a record. -/
  fields : Fields
  /-- The column of each json path, in the order of declaration. -/
  bindings : List (String × String)
  /-- The output columns. -/
  columns : List String
  /-- The datatypes of the output columns. -/
  datatypes : List Datatype
  /-- What stands between the names of a json path. -/
  separator : String
  deriving DecidableEq, Repr

end NestedRecords
