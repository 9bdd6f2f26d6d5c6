import NestedRecords.Value

/-!
# Options

Options come from outside as a json value. Every option is read on its own, so that all the
issues of a value are reported together; names that are no option are passed over, and an
absent option takes its default.
-/

namespace NestedRecords

/-- How the fields of an unnested struct are called. -/
inductive Strategy
  /-- By their full json path. -/
  | eager
  /-- By their own name, as long as that is free. -/
  | deferred
  deriving DecidableEq, Repr

/-- The name that an option gives a strategy by. -/
def Strategy.name : Strategy → String
  | eager => "eager"
  | deferred => "deferred"

/-- How a schema text is read. -/
structure CompileOptions where
  /-- What stands between the names of a json path. -/
  separator : String := "."
  /-- What the errors call the text. -/
  sourceName : Option String := none
  separator_ne_empty : separator ≠ "" := by decide

/-- How records are unpacked. -/
structure UnpackOptions extends CompileOptions where
  strategy : Strategy := .eager

/-! ### Issues -/

/-- What is wrong with an option. -/
inductive OptionDefect
  /-- A value of another kind was expected. -/
  | wrongKind (expected received : String)
  /-- The separator is empty. -/
  | emptySeparator
  /-- No strategy has this name. -/
  | unknownStrategy (received : String)
  deriving DecidableEq, Repr

/-- A defect and the option that has it; the empty name stands for the options as a whole. -/
structure OptionIssue where
  option : String
  defect : OptionDefect
  deriving DecidableEq, Repr

namespace OptionDefect

/-- The names of the strategies as messages list them. -/
def strategyNames : String := "'eager' | 'deferred'"

/-- The code that stands for a defect. -/
def code : OptionDefect → String
  | wrongKind _ _ => "invalid_type"
  | emptySeparator => "too_small"
  | unknownStrategy _ => "invalid_enum_value"

/-- The wording of a defect. -/
def message : OptionDefect → String
  | wrongKind expected received => "Expected " ++ expected ++ ", received " ++ received
  | emptySeparator => "separator must not be empty"
  | unknownStrategy received =>
    "Invalid enum value. Expected " ++ strategyNames ++ ", received '" ++ received ++ "'"

end OptionDefect

/-! ### Reading single options -/

/-- The issue of an option that could not be read. -/
def issuesOf {α : Type} : Except OptionIssue α → List OptionIssue
  | .ok _ => []
  | .error issue => [issue]

/-- The separator among some options. -/
def readSeparator (members : List (String × Value)) :
    Except OptionIssue { s : String // s ≠ "" } :=
  match members.lookup "separator" with
  | none => .ok ⟨".", by decide⟩
  | some (.string s) => if h : s = "" then .error ⟨"separator", .emptySeparator⟩ else .ok ⟨s, h⟩
  | some v => .error ⟨"separator", .wrongKind "string" v.kind⟩

/-- The name of the source among some options. -/
def readSourceName (members : List (String × Value)) : Except OptionIssue (Option String) :=
  match members.lookup "sourceName" with
  | none => .ok none
  | some (.string s) => .ok (some s)
  | some v => .error ⟨"sourceName", .wrongKind "string" v.kind⟩

/-- The strategy among some options. -/
def readStrategy (members : List (String × Value)) : Except OptionIssue Strategy :=
  match members.lookup "strategy" with
  | none => .ok .eager
  | some (.string s) =>
    if s = Strategy.eager.name then .ok .eager
    else if s = Strategy.deferred.name then .ok .deferred
    else .error ⟨"strategy", .unknownStrategy s⟩
  | some v => .error ⟨"strategy", .wrongKind OptionDefect.strategyNames v.kind⟩

/-! ### Reading options values -/

/-- The options that a value holds; no value holds no options, and only an object holds any. -/
def optionMembers : Option Value → Except (List OptionIssue) (List (String × Value))
  | none => .ok []
  | some (.object members) => .ok members
  | some v => .error [⟨"", .wrongKind "object" v.kind⟩]

namespace CompileOptions

/-- Puts the single options together, or all of their issues. -/
def ofMembers (members : List (String × Value)) : Except (List OptionIssue) CompileOptions :=
  match readSeparator members, readSourceName members with
  | .ok separator, .ok sourceName =>
    .ok { separator, sourceName, separator_ne_empty := separator.property }
  | separator, sourceName => .error (issuesOf separator ++ issuesOf sourceName)

/-- Reads how a schema text is to be read. -/
def ofValue? (value : Option Value) : Except (List OptionIssue) CompileOptions :=
  optionMembers value >>= ofMembers

end CompileOptions

/-- Reads how a plan is to be made. -/
def Strategy.ofValue? (value : Option Value) : Except (List OptionIssue) Strategy := do
  (readStrategy (← optionMembers value)).mapError ([·])

namespace UnpackOptions

/-- Puts the single options together, or all of their issues. -/
def ofMembers (members : List (String × Value)) : Except (List OptionIssue) UnpackOptions :=
  match CompileOptions.ofMembers members, readStrategy members with
  | .ok compile, .ok strategy => .ok { compile with strategy }
  | .error issues, strategy => .error (issues ++ issuesOf strategy)
  | .ok _, .error issue => .error [issue]

/-- Reads how records are to be unpacked. -/
def ofValue? (value : Option Value) : Except (List OptionIssue) UnpackOptions :=
  optionMembers value >>= ofMembers

end UnpackOptions

end NestedRecords
