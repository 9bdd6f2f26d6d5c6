import NestedRecords.Frame
import NestedRecords.Text.Blank
import NestedRecords.Value.Reader

/-!
# Records one to a line

A text of records has one json document on each line that is not blank. Lines end with a line
feed, with or without a carriage return in front of it, and are counted from 1 with the blank
ones.
-/

namespace NestedRecords

/-- The line that holds no json document. -/
structure LineError where
  line : Nat
  deriving DecidableEq, Repr

/-- The wording of the error. -/
def LineError.message (e : LineError) : String := "Invalid JSON on line " ++ toString e.line

namespace Ndjson

/-- The lines of a text that are not blank, with their numbers. -/
def documents (content : Text) : List (Text × Nat) :=
  (content.unifyLineEndings.lines.zipIdx 1).filter (!·.1.isBlank)

/-- Reads one line with a reader of json documents. -/
def readDocument (read : Text → Option Value) (document : Text × Nat) : Except LineError Value :=
  match read document.1 with
  | some record => .ok record
  | none => .error ⟨document.2⟩

/-- The records of a text, given a reader of json documents. -/
def records (content : Text) (read : Text → Option Value := Value.ofText?) :
    Except LineError (List Value) :=
  (documents content).mapM (readDocument read)

end Ndjson

/-- The frame of a text with one record to a line. -/
def Frame.ofNdjson (content : Text) (read : Text → Option Value := Value.ofText?) :
    Except LineError Frame :=
  return .ofRecords (← Ndjson.records content read)

end NestedRecords
