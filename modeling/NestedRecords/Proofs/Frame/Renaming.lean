import NestedRecords.Frame
import NestedRecords.Plan.Execution
import NestedRecords.Proofs.Pairing

/-!
# Steps on frames under other column names

What a step does to a frame hangs on the names of columns only in so far as they are equal or not.
So when the names of one frame correspond one to one to those of another frame, steps that are alike
keep the two frames alike, and where one of them fails the other one fails for the same reason
(`Plan.runStep_paired`, `Plan.runSteps_paired`).
-/

namespace NestedRecords

open List Relator

variable {K : String → String → Prop}

/-! ### What corresponds to each other -/

/-- Rows with the same values in columns that correspond. -/
def Row.Alike (K : String → String → Prop) : Row → Row → Prop :=
  Forall₂ fun cell cell' => K cell.1 cell'.1 ∧ cell.2 = cell'.2

/-- Frames with the same values in columns that correspond. -/
structure Frame.Alike (K : String → String → Prop) (frame frame' : Frame) : Prop where
  columns : Forall₂ K frame.columns frame'.columns
  rows : Forall₂ (Row.Alike K) frame.rows frame'.rows

/-- Errors of one cause, about columns that correspond. -/
inductive FrameError.Alike (K : String → String → Prop) : FrameError → FrameError → Prop
  | unknownColumn {column column' : String} (h : K column column') :
      Alike K (.unknownColumn column) (.unknownColumn column')
  | existingColumn {column column' : String} (h : K column column') :
      Alike K (.existingColumn column) (.existingColumn column')
  | renamedTwice {column column' : String} (h : K column column') :
      Alike K (.renamedTwice column) (.renamedTwice column')
  | notLists {column column' : String} (h : K column column') :
      Alike K (.notLists column) (.notLists column')
  | notStructs {column column' : String} (h : K column column') :
      Alike K (.notStructs column) (.notStructs column')

/-- Steps that take columns apart which correspond, into columns which correspond. -/
inductive Step.Alike (K : String → String → Prop) : Step → Step → Prop
  | explode {column column' : String} (h : K column column') :
      Alike K (.explode column) (.explode column')
  | unnest {column column' lead lead' : String} {fields : List String} (h : K column column')
      (hfields : ∀ field ∈ fields, K (lead ++ field) (lead' ++ field)) :
      Alike K (.unnest column lead fields) (.unnest column' lead' fields)

theorem Step.Alike.column {step step' : Step} (h : step.Alike K step') :
    K step.column step'.column := by
  cases h with
  | explode h => exact h
  | unnest h _ => exact h

namespace Row.Alike

variable {row row' : Row} {column column' : String}

/-- The values in columns that correspond. -/
theorem cell (hK : BiUnique K) (h : Row.Alike K row row') (hcolumn : K column column') :
    row.cell column = row'.cell column' := by
  rw [Row.cell, Row.cell, lookup_eq_of_forall₂ hK h hcolumn]

/-- Setting the same value in columns that correspond. -/
theorem insert (hK : BiUnique K) (h : Row.Alike K row row') (hcolumn : K column column')
    (value : Value) :
    Row.Alike K (Assoc.insert column value row) (Assoc.insert column' value row') := by
  induction h with
  | nil => exact .cons ⟨hcolumn, rfl⟩ .nil
  | @cons cell cell' rest rest' hcell hrest ih =>
    have hiff : cell.1 = column ↔ cell'.1 = column' := rel_eq hK hcell.1 hcolumn
    by_cases heq : cell.1 = column
    · rw [Assoc.insert, Assoc.insert, if_pos heq, if_pos (hiff.mp heq)]
      exact .cons ⟨hcell.1, rfl⟩ hrest
    · rw [Assoc.insert, Assoc.insert, if_neg heq, if_neg (mt hiff.mpr heq)]
      exact .cons hcell ih

end Row.Alike

namespace Frame

variable {frame frame' : Frame} {column column' : String}

theorem requireColumn_paired (hK : BiUnique K) (h : frame.Alike K frame')
    (hcolumn : K column column') :
    Paired (FrameError.Alike K) Eq (frame.requireColumn column) (frame'.requireColumn column') := by
  have hiff : column ∈ frame.columns ↔ column' ∈ frame'.columns := rel_mem hK hcolumn h.columns
  by_cases hmem : column ∈ frame.columns
  · rw [requireColumn, requireColumn, if_pos hmem, if_pos (hiff.mp hmem)]
    exact .ok rfl
  · rw [requireColumn, requireColumn, if_neg hmem, if_neg (mt hiff.mpr hmem)]
    exact .error (.unknownColumn hcolumn)

/-! ### Operations -/

theorem explodeRow_paired (hK : BiUnique K) (hcolumn : K column column') {row row' : Row}
    (h : Row.Alike K row row') :
    Paired (FrameError.Alike K) (Forall₂ (Row.Alike K)) (explodeRow column row)
      (explodeRow column' row') := by
  rw [explodeRow, explodeRow, ← h.cell hK hcolumn]
  split
  · exact .ok (forall₂_map_self fun item _ => h.insert hK hcolumn item)
  · exact .error (.notLists hcolumn)

theorem explode_paired (hK : BiUnique K) (h : frame.Alike K frame') (hcolumn : K column column') :
    Paired (FrameError.Alike K) (Frame.Alike K) (frame.explode column)
      (frame'.explode column') := by
  refine (requireColumn_paired hK h hcolumn).bind fun _ _ _ => ?_
  refine Paired.bind (.mapM (fun _ _ => explodeRow_paired hK hcolumn) h.rows) fun _ _ hrows => ?_
  exact .ok ⟨h.columns, rel_flatten hrows⟩

/-- Where one column gives way and each of the others is kept in its own way. -/
private theorem forall₂_replace {α : Type} (hK : BiUnique K) {columns columns' : List String}
    (hcolumns : Forall₂ K columns columns') (hcolumn : K column column') {P : α → α → Prop}
    {others others' : List α} (hothers : Forall₂ P others others') {keep keep' : String → List α}
    (hkeep : ∀ existing existing', K existing existing' →
      Forall₂ P (keep existing) (keep' existing')) :
    Forall₂ P (columns.flatMap fun existing => if existing = column then others else keep existing)
      (columns'.flatMap fun existing =>
        if existing = column' then others' else keep' existing) := by
  refine rel_flatMap hcolumns fun existing existing' hexisting => ?_
  have hiff : existing = column ↔ existing' = column' := rel_eq hK hexisting hcolumn
  by_cases heq : existing = column
  · rw [if_pos heq, if_pos (hiff.mp heq)]
    exact hothers
  · rw [if_neg heq, if_neg (mt hiff.mpr heq)]
    exact hkeep existing existing' hexisting

theorem unnestRow_paired (hK : BiUnique K) {columns columns' : List String}
    (hcolumns : Forall₂ K columns columns') (hcolumn : K column column') {lead lead' : String}
    {fields : List String} (hfields : ∀ field ∈ fields, K (lead ++ field) (lead' ++ field))
    {row row' : Row} (h : Row.Alike K row row') :
    Paired (FrameError.Alike K) (Row.Alike K) (unnestRow columns column lead fields row)
      (unnestRow columns' column' lead' fields row') := by
  rw [unnestRow, unnestRow, ← h.cell hK hcolumn]
  split
  · refine .ok (forall₂_replace hK hcolumns hcolumn ?_ fun existing existing' hexisting => ?_)
    · exact forall₂_map_self fun field hfield => ⟨hfields field hfield, rfl⟩
    · exact .cons ⟨hexisting, h.cell hK hexisting⟩ .nil
  · exact .error (.notStructs hcolumn)

theorem unnest_paired (hK : BiUnique K) (h : frame.Alike K frame') (hcolumn : K column column')
    {lead lead' : String} {fields : List String}
    (hfields : ∀ field ∈ fields, K (lead ++ field) (lead' ++ field)) :
    Paired (FrameError.Alike K) (Frame.Alike K) (frame.unnest column lead fields)
      (frame'.unnest column' lead' fields) := by
  have hnew : Forall₂ K (fields.map (lead ++ ·)) (fields.map (lead' ++ ·)) :=
    forall₂_map_self hfields
  have htaken : ∀ name name', K name name' →
      decide (name ≠ column ∧ name ∈ frame.columns) =
        decide (name' ≠ column' ∧ name' ∈ frame'.columns) := by
    intro name name' hname
    have hsame : name = column ↔ name' = column' := rel_eq hK hname hcolumn
    have hmem : name ∈ frame.columns ↔ name' ∈ frame'.columns := rel_mem hK hname h.columns
    exact decide_eq_decide.mpr (and_congr (not_congr hsame) hmem)
  refine (requireColumn_paired hK h hcolumn).bind fun _ _ _ => ?_
  dsimp only
  rcases find?_paired htaken hnew with ⟨hnone, hnone'⟩ | ⟨name, name', hsome, hsome', hname⟩
  · rw [hnone, hnone']
    refine Paired.bind (.mapM (fun _ _ => unnestRow_paired hK h.columns hcolumn hfields) h.rows)
      fun _ _ hrows => .ok ⟨?_, hrows⟩
    exact forall₂_replace hK h.columns hcolumn hnew fun _ _ hexisting => .cons hexisting .nil
  · rw [hsome, hsome']
    exact .error (.existingColumn hname)

end Frame

/-! ### Running steps -/

namespace Plan

variable {frame frame' : Frame}

/-- **Step lemma.** Steps that are alike run on both frames or are skipped on both. -/
theorem runStep_paired (hK : BiUnique K) (h : frame.Alike K frame') {step step' : Step}
    (hstep : step.Alike K step') :
    Paired (FrameError.Alike K) (Frame.Alike K) (runStep Frame.engine frame step)
      (runStep Frame.engine frame' step') := by
  have hiff : step.column ∈ frame.columns ↔ step'.column ∈ frame'.columns :=
    rel_mem hK hstep.column h.columns
  by_cases hmem : step.column ∈ frame.columns
  · have hrun : runStep Frame.engine frame step = frame.perform step.operation := if_pos hmem
    have hrun' : runStep Frame.engine frame' step' = frame'.perform step'.operation :=
      if_pos (hiff.mp hmem)
    rw [hrun, hrun']
    cases hstep with
    | explode hcolumn => exact Frame.explode_paired hK h hcolumn
    | unnest hcolumn hfields => exact Frame.unnest_paired hK h hcolumn hfields
  · have hskip : runStep Frame.engine frame step = .ok frame := if_neg hmem
    have hskip' : runStep Frame.engine frame' step' = .ok frame' := if_neg (mt hiff.mpr hmem)
    rw [hskip, hskip']
    exact .ok h

/-- **Run lemma.** -/
theorem runSteps_paired (hK : BiUnique K) (h : frame.Alike K frame') {steps steps' : List Step}
    (hsteps : Forall₂ (Step.Alike K) steps steps') :
    Paired (FrameError.Alike K) (Frame.Alike K) (steps.foldlM (runStep Frame.engine) frame)
      (steps'.foldlM (runStep Frame.engine) frame') := by
  have step : ∀ frame frame' step step', Frame.Alike K frame frame' → Step.Alike K step step' →
      Paired (FrameError.Alike K) (Frame.Alike K) (runStep Frame.engine frame step)
        (runStep Frame.engine frame' step') :=
    fun _ _ _ _ hframe hstep => runStep_paired hK hframe hstep
  exact .foldlM step hsteps h

end Plan

end NestedRecords
