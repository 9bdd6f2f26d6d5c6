import NestedRecords.Frame.Ndjson
import NestedRecords.Plan.Execution
import NestedRecords.Plan.Planning
import NestedRecords.Schema.Reading

/-!
# Unpacking records

The whole way from a schema text and some records to flat rows: read the text, plan, and run the
plan on the frame of the records. What goes wrong first is what is reported.
-/

namespace NestedRecords

/-- Why records cannot be unpacked. -/
inductive UnpackError
  | records (error : LineError)
  | options (issues : List OptionIssue)
  | schema (error : SchemaFailure)
  | plan (error : PlanError)
  | frame (error : FrameError)
  deriving DecidableEq, Repr

/-- The frame that a schema text makes of a frame of nested records. -/
def unpack (source : Text) (frame : Frame) (options : UnpackOptions := {}) :
    Except UnpackError Frame := do
  let schema ← (compile source options.toCompileOptions).mapError .schema
  let plan ← (Plan.ofSchema schema options.strategy).mapError .plan
  (plan.execute Frame.engine frame).mapError .frame

/-- The rows that a schema text makes of some records. -/
def unpackRecords (source : Text) (records : List Value) (options : UnpackOptions := {}) :
    Except UnpackError (List Row) :=
  Frame.records <$> unpack source (.ofRecords records) options

/-- The rows that a schema text makes of a text with one record to a line. -/
def unpackNdjson (source content : Text) (options : UnpackOptions := {}) :
    Except UnpackError (List Row) := do
  let frame ← (Frame.ofNdjson content).mapError .records
  Frame.records <$> unpack source frame options

/-- The rows that a schema text makes of a frame, where the options come as a value too. The frame
is looked at before the options. -/
def unpackWith (source : Text) (frame : Except LineError Frame) (options : Option Value) :
    Except UnpackError (List Row) := do
  let frame ← frame.mapError .records
  let options ← (UnpackOptions.ofValue? options).mapError .options
  Frame.records <$> unpack source frame options

end NestedRecords
