/-!
# Datatypes and type names

A schema names its types without regard to letter case. A name stands for one of the scalar
`Datatype`s, some of which have a second name, or for one of the two kinds of `Container`.
-/

namespace NestedRecords

/-- The type of the values in an output column. -/
inductive Datatype
  | int8
  | int16
  | int32
  | int64
  | uint8
  | uint16
  | uint32
  | uint64
  | float32
  | float64
  | utf8
  deriving DecidableEq, Repr

namespace Datatype

/-- Every datatype, in the order in which the type names list them. -/
def all : List Datatype :=
  [int8, int16, int32, int64, uint8, uint16, uint32, uint64, float32, float64, utf8]

theorem mem_all (d : Datatype) : d ∈ all := by cases d <;> decide

/-- The lower-case name of a datatype. -/
def name : Datatype → String
  | int8 => "int8"
  | int16 => "int16"
  | int32 => "int32"
  | int64 => "int64"
  | uint8 => "uint8"
  | uint16 => "uint16"
  | uint32 => "uint32"
  | uint64 => "uint64"
  | float32 => "float32"
  | float64 => "float64"
  | utf8 => "utf8"

/-- The name of a datatype as a printed schema spells it. -/
def displayName : Datatype → String
  | int8 => "Int8"
  | int16 => "Int16"
  | int32 => "Int32"
  | int64 => "Int64"
  | uint8 => "UInt8"
  | uint16 => "UInt16"
  | uint32 => "UInt32"
  | uint64 => "UInt64"
  | float32 => "Float32"
  | float64 => "Float64"
  | utf8 => "Utf8"

end Datatype

/-- The two ways of nesting types. -/
inductive Container
  | list
  | struct
  deriving DecidableEq, Repr

/-- What a type name stands for. -/
inductive TypeName
  | scalar (datatype : Datatype)
  | container (kind : Container)
  deriving DecidableEq, Repr

namespace TypeName

/-- The type names in lower case. -/
def registry : List (String × TypeName) :=
  Datatype.all.map (fun d => (d.name, .scalar d)) ++
    [("int", .scalar .int64), ("integer", .scalar .int64), ("float", .scalar .float64),
      ("real", .scalar .float64), ("string", .scalar .utf8),
      ("list", .container .list), ("array", .container .list), ("struct", .container .struct)]

/--
What a name stands for, whatever the case of its letters. Lower-casing the ASCII letters is
enough: no other character has a lower-case form that occurs in a type name.
-/
def ofName? (name : String) : Option TypeName :=
  registry.lookup (String.ofList (name.toList.map Char.toLower))

/-- A displayed datatype reads back as itself. -/
theorem ofName?_displayName (d : Datatype) : ofName? d.displayName = some (.scalar d) := by
  cases d <;> decide +kernel

end TypeName

end NestedRecords
