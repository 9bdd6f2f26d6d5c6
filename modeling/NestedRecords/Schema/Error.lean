import NestedRecords.Diagnostic
import NestedRecords.Fragment

/-!
# Errors in a schema text

A `Problem` is the cause for which a schema text is refused. `Problem.reason` words it and
`Problem.kind` sorts it into the four kinds a caller can tell apart. A `SchemaError` is a worded
problem at its place in the text, together with the diagnostic that shows it.

Reading a schema text yields a `Rejection`, a problem at a fragment of that text; only
`Rejection.failure` needs the text as a whole.
-/

namespace NestedRecords

/-- The kinds of schema errors; `general` stands for an error of none of the others. -/
inductive SchemaErrorKind
  | general
  | parsing
  | unknownDatatype
  | duplicateColumn
  | pathRenaming
  deriving DecidableEq, Repr

/-- Why a schema text is refused. -/
inductive Problem
  /-- The text goes on, at `line`, with something that begins no token. -/
  | unexpectedContent (line : String)
  /-- The container `keyword` is not followed by a bracket. -/
  | missingOpening (keyword : String)
  /-- No container waits for its opening bracket. -/
  | unexpectedOpening (delimiter : String)
  /-- No container is open. -/
  | unexpectedClosing (delimiter : String)
  /-- A list was closed without an element. -/
  | missingElement (keyword : String)
  /-- An element of a list has a name. -/
  | namedElement (name : String)
  /-- A list has a second element. -/
  | secondElement (keyword : String)
  /-- The text ends before `depth` containers were closed. -/
  | unterminated (keyword : String) (depth : Nat)
  /-- No type has this name. -/
  | unknownDatatype (name : String)
  /-- Two entries fill the same column. -/
  | duplicateColumn (column : String)
  /-- Two entries read the same json path. -/
  | duplicatePath (path : String)
  /-- Two entries of the container `parent` have the same name. -/
  | duplicateAttribute (parent name : String)
  /-- A new name is given to a container. -/
  | renamedContainer (type name newName : String)
  deriving DecidableEq, Repr

namespace Problem

/-- The kind of a problem. -/
def kind : Problem → SchemaErrorKind
  | unexpectedContent _ | missingOpening _ | unexpectedOpening _ | unexpectedClosing _
  | missingElement _ | namedElement _ | secondElement _ | unterminated _ _ => .parsing
  | unknownDatatype _ => .unknownDatatype
  | duplicateColumn _ | duplicatePath _ | duplicateAttribute _ _ => .duplicateColumn
  | renamedContainer _ _ _ => .pathRenaming

/-- The wording of a problem. -/
def reason : Problem → String
  | unexpectedContent line => "Unexpected content: " ++ line
  | missingOpening keyword => "Expected an opening delimiter after " ++ keyword
  | unexpectedOpening delimiter => "Unexpected opening delimiter " ++ delimiter
  | unexpectedClosing delimiter => "Unexpected closing delimiter " ++ delimiter
  | missingElement keyword => "Missing element type in " ++ keyword
  | namedElement name => "List elements cannot be named: " ++ name
  | secondElement keyword => keyword ++ " holds a single element type"
  | unterminated keyword depth =>
    "Unterminated " ++ keyword ++ ": " ++ toString depth ++ " container(s) left open"
  | unknownDatatype name => "Unknown datatype: " ++ name
  | duplicateColumn column => "Duplicate column: " ++ column
  | duplicatePath path => "Duplicate json path: " ++ path
  | duplicateAttribute parent name =>
    "Duplicate attribute" ++ (if parent = "" then "" else " in " ++ parent) ++ ": " ++
      (if name = "" then "(anonymous)" else name)
  | renamedContainer type name newName =>
    "Cannot rename " ++ type ++ " attribute " ++ name ++ " to " ++ newName

end Problem

/-- A worded problem at its place in a schema text. -/
structure SchemaError where
  kind : SchemaErrorKind
  reason : String
  sourceName : Option String
  issue : Issue
  diagnostic : Text
  deriving DecidableEq, Repr

namespace SchemaError

/-- The name of the source and a colon; a source without a name, or an empty one, has neither. -/
def sourceLabel (sourceName : Option String) : String :=
  match sourceName with
  | some name => if name = "" then "" else name ++ ":"
  | none => ""

/-- The place of an error, its reason and the excerpt that shows it. -/
def message (e : SchemaError) : String :=
  sourceLabel e.sourceName ++ toString e.issue.line ++ ":" ++ toString e.issue.column ++ " - " ++
    e.reason ++ "\n\n" ++ e.diagnostic.toString

end SchemaError

/-- What a schema text is refused with. -/
inductive SchemaFailure
  /-- A problem of the text. -/
  | invalid (error : SchemaError)
  /-- A problem of the text for which no diagnostic can be drawn. -/
  | undrawable (error : DiagnosticError)
  deriving DecidableEq, Repr

/-- A worded problem at an offset of a source text. -/
def SchemaFailure.locate (kind : SchemaErrorKind) (reason : String) (source : Text) (offset : Int)
    (sourceName : Option String := none) : SchemaFailure :=
  let issue := Issue.locate source offset
  match issue.diagnostic source with
  | .ok diagnostic => .invalid { kind, reason, sourceName, issue, diagnostic }
  | .error e => .undrawable e

/-- A problem and the fragment of the schema text that shows it. -/
structure Rejection where
  problem : Problem
  site : Fragment
  deriving DecidableEq, Repr

/-- The failure of a source text that holds the rejected fragment. -/
def Rejection.failure (r : Rejection) (source : Text) (sourceName : Option String := none) :
    SchemaFailure :=
  .locate r.problem.kind r.problem.reason source r.site.start.offset sourceName

end NestedRecords
