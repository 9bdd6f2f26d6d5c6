import NestedRecords.Engine
import NestedRecords.Plan

/-!
# Running a plan

A plan is run by an engine in five stages. The columns it does not want are dropped first, so
that they collide with nothing. Then every step runs whose column is there; the leaves that have
no column afterwards are added as nulls of their datatype; the leaf columns get their new names;
and the output columns are put in order.
-/

namespace NestedRecords

/-- What a step does to a frame. -/
def Step.operation : Step → Operation
  | explode column => .explode column
  | unnest column lead fields => .unnest column lead fields

namespace Plan

variable {m : Type → Type} [Monad m] {F : Type}

/-- Runs a step if its column is there. -/
def runStep (engine : Engine m F) (frame : F) (step : Step) : m F :=
  if step.column ∈ engine.columns frame then engine.perform step.operation frame else pure frame

/-- Runs a plan on a frame. -/
def execute (plan : Plan) (engine : Engine m F) (frame : F) : m F := do
  let sources := plan.sourceColumns (engine.columns frame)
  let selected ← engine.perform (.select sources) frame
  let flat ← plan.steps.foldlM (runStep engine) selected
  let missing := plan.missingColumns (engine.columns flat)
  let complete ← missing.foldlM
    (fun frame column => engine.perform (.addNulls column.1 column.2) frame) flat
  let renamed ← engine.perform (.rename plan.rename) complete
  engine.perform (.select plan.select) renamed

end Plan

end NestedRecords
