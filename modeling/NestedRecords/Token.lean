import NestedRecords.Fragment

/-!
# Tokens of a schema text

A schema text is a sequence of entries and delimiters. An entry is a type, with or without a
name in front of it and a new name for its column; the four families of brackets are
interchangeable.
-/

namespace NestedRecords

/-- A token, made of the fragments that carry its meaning. -/
inductive Token
  /-- An entry `name=newName: type`. -/
  | renamed (name newName type : Fragment)
  /-- An entry `name: type`. -/
  | attribute (name type : Fragment)
  /-- An entry that is a type alone. -/
  | lone (type : Fragment)
  /-- A bracket that opens the content of a container. -/
  | opening (delimiter : Fragment)
  /-- A bracket that closes the content of a container. -/
  | closing (delimiter : Fragment)
  deriving DecidableEq, Repr

/-- The parts of a token in the order in which they are written. -/
def Token.parts : Token → List Fragment
  | .renamed name newName type => [name, newName, type]
  | .attribute name type => [name, type]
  | .lone type => [type]
  | .opening delimiter => [delimiter]
  | .closing delimiter => [delimiter]

end NestedRecords
