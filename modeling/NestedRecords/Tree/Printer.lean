import NestedRecords.Tree

/-!
# Printing a tree as schema text

Each scalar takes a line of its own. A container takes a line for its keyword with the opening
bracket, its content one step further in, and a line for the closing bracket:

```text
attribute: Utf8
nested: Struct(
    vector: List(
        Int64
    )
)
```
-/

namespace NestedRecords

namespace Tree

/-- What stands in front of a type: its name and a colon, or nothing for an anonymous one. -/
def label (name : String) : String := if name = "" then "" else name ++ ": "

mutual

/-- The lines of a labelled type, where `margin` is the white space in front of its first line. -/
def printLines (indent margin label : String) : Tree → List String
  | scalar d => [margin ++ label ++ d.displayName]
  | list element =>
    [margin ++ label ++ "List("] ++ printLines indent (margin ++ indent) "" element ++
      [margin ++ ")"]
  | struct fields =>
    [margin ++ label ++ "Struct("] ++ printFieldLines indent (margin ++ indent) fields ++
      [margin ++ ")"]

/-- The lines of named types, one after the other. -/
def printFieldLines (indent margin : String) : List (String × Tree) → List String
  | [] => []
  | (name, type) :: rest =>
    printLines indent margin (label name) type ++ printFieldLines indent margin rest

end

/-- The schema text of the fields of a record. -/
def print (fields : Fields) (indent : String := "    ") : String :=
  "\n".intercalate (printFieldLines indent "" fields)

example : print [("a", .scalar .utf8), ("", .list (.struct [("b", .scalar .uint8)]))] =
    "a: Utf8\nList(\n    Struct(\n        b: UInt8\n    )\n)" := by
  decide +kernel

end Tree

end NestedRecords
