import NestedRecords.Text.Class

/-!
# Diagnostics

An `Issue` is a place in a schema text at which something is wrong: a span that runs up to the
next bracket or line end, the line it starts on and its column there. A diagnostic shows the
text up to that line, with carets below the span:

```text
Tripped on line 2

     1 │ headers: Struct(
     2 │     timestamp: Foo
     ? │                ^^^
```

The line of an issue begins behind the last line feed before it, and the first unit of the
text is always looked at. So an issue at the very start of a text that begins with a line feed
has no column on its line: its `column` is 0 and no caret can be drawn for it.
-/

namespace NestedRecords

open CodeUnit

/-- A place in a schema text at which something is wrong. -/
structure Issue where
  /-- Where the span starts. -/
  start : Nat
  /-- Where the span ends. -/
  stop : Nat
  /-- The line that the span starts on, counted from 1. -/
  line : Nat
  /-- The column at which the span starts, counted from 1. -/
  column : Nat
  lineText : Text
  deriving DecidableEq, Repr

/-- Why a diagnostic cannot be drawn. -/
inductive DiagnosticError
  /-- The issue has no column on its line. -/
  | noColumn
  deriving DecidableEq, Repr

/-- The wording of the error. -/
def DiagnosticError.message : DiagnosticError → String
  | .noColumn => "Invalid count value: -1"

namespace Issue

/-- Where the line of the unit at `start` begins; the first unit of the text always counts. -/
def lineStart (source : Text) (start : Nat) : Nat :=
  let head := source.take (max start 1)
  head.length - (head.reverse.takeWhile (· ≠ lineFeed)).length

/-- Where the line of the unit at `start` ends. -/
def lineEnd (source : Text) (start : Nat) : Nat :=
  start + ((source.drop start).takeWhile (· ≠ lineFeed)).length

/-- The issue at a given offset, which is first clamped to the text. -/
def locate (source : Text) (offset : Int) : Issue :=
  let start := min offset.toNat source.length
  { start
    stop := start + ((source.drop start).takeWhile (!·.isSpanEnd)).length
    line := (source.take start).count lineFeed + 1
    column := start + 1 - lineStart source start
    lineText := (source.take (lineEnd source start)).drop (lineStart source start) }

/-! ### Drawing -/

/-- A line of the excerpt behind its gutter. -/
def gutterLine (label : String) (content : Text) : Text :=
  Text.ofString ("   " ++ String.ofList (label.toList.leftpad 3 ' ') ++ " │ ") ++ content

/-- The lines of the text up to the issue, numbered from 1. -/
def excerpt (source : Text) (issue : Issue) : List Text :=
  (source.lines.take issue.line).mapIdx fun i line => gutterLine (toString (i + 1)) line

/-- The carets below the span of an issue; an empty span gets one. -/
def carets (issue : Issue) : Text :=
  List.replicate (issue.column - 1) (ofChar ' ') ++
    List.replicate (max (issue.stop - issue.start) 1) (ofChar '^')

/-- The excerpt of the text up to an issue, with its carets. -/
def diagnostic (source : Text) (issue : Issue) : Except DiagnosticError Text :=
  if issue.column = 0 then .error .noColumn
  else
    .ok (List.intercalate [lineFeed]
      ([Text.ofString ("Tripped on line " ++ toString issue.line), []] ++
        excerpt source issue ++ [gutterLine "?" issue.carets]))

/--
The diagnostic of what could not be read. Without an offset its first occurrence in the text
is meant, or the start of the text if there is none.
-/
def diagnose (source unread : Text) (offset : Option Int := none) : Except DiagnosticError Text :=
  let start := match offset with
    | some offset => offset
    | none => ((unread.indexOf? source).getD 0 : Nat)
  (locate source start).diagnostic source

end Issue

end NestedRecords
