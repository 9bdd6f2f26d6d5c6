import NestedRecords.Proofs.Frame.Operations

/-!
# What becomes of a frame

The five operations side by side. Each has a condition on the frame it is done to
(`Operation.Applies`), and where that holds, the frame that comes out is told by three functions,
one for each part of a frame: the columns (`Operation.columnsAfter`), the rows that a single row
gives way to (`Operation.rowsAfter`) and the datatypes that are remembered
(`Operation.datatypesAfter`). No operation looks at two rows at once. So the rows of the new frame
are those of the old one, one after the other, each with the rows it has given way to in its place.

`Frame.perform_eq_ok_iff` says that this is all there is to know of a success. What operations keep
and how they get along with each other is read off from these functions. Several operations in turn
are `Frame.performAll`.
-/

namespace NestedRecords

namespace Operation

/-- The columns of a frame after an operation. -/
def columnsAfter : Operation → List String → List String
  | explode _, columns => columns
  | unnest column lead fields, columns => spread column (fields.map (lead ++ ·)) columns
  | rename mapping, columns => columns.map (renamed mapping)
  | select kept, _ => kept
  | addNulls column _, columns => columns ++ [column]

/-- The rows that a row of a frame with some columns gives way to. -/
def rowsAfter : Operation → List String → Row → List Row
  | explode column, _, row =>
    (row.cell column).items.map fun item => Assoc.insert column item row
  | unnest column lead fields, columns, row =>
    [Row.spread columns column lead fields (row.cell column).members row]
  | rename mapping, _, row => [row.map fun cell => (renamed mapping cell.1, cell.2)]
  | select kept, _, row => [kept.map fun column => (column, row.cell column)]
  | addNulls column _, _, row => [Assoc.insert column .null row]

/-- The datatypes that a frame remembers after an operation. -/
def datatypesAfter : Operation → List (String × Datatype) → List (String × Datatype)
  | rename mapping, datatypes =>
    Assoc.ofList (datatypes.map fun entry => (renamed mapping entry.1, entry.2))
  | addNulls column datatype, datatypes => Assoc.insert column datatype datatypes
  | _, datatypes => datatypes

/-- **When an operation succeeds.** The columns it names are there or are not, as it needs them,
and what it takes apart is of the right shape in every row. -/
def Applies (frame : Frame) : Operation → Prop
  | explode column => column ∈ frame.columns ∧
      ∀ row ∈ frame.rows, (row.cell column).items? = some (row.cell column).items
  | unnest column lead fields => column ∈ frame.columns ∧
      (∀ name ∈ fields.map (lead ++ ·), name ∈ frame.columns → name = column) ∧
      ∀ row ∈ frame.rows, (row.cell column).members? = some (row.cell column).members
  | rename mapping => (frame.columns.map (renamed mapping)).Nodup
  | select kept => ∀ column ∈ kept, column ∈ frame.columns
  | addNulls column _ => column ∉ frame.columns

/-- No row is lost. -/
theorem Applies.rowsAfter_ne_nil {operation : Operation} {frame : Frame}
    (h : operation.Applies frame) {row : Row} (hrow : row ∈ frame.rows) :
    operation.rowsAfter frame.columns row ≠ [] := by
  cases operation with
  | explode column => exact mt List.map_eq_nil_iff.mp (Value.items_ne_nil (h.2 row hrow))
  | _ => exact List.cons_ne_nil _ _

end Operation

namespace Frame

/-- The frame that an operation makes of a frame it applies to. -/
def after (frame : Frame) (operation : Operation) : Frame where
  columns := operation.columnsAfter frame.columns
  rows := frame.rows.flatMap (operation.rowsAfter frame.columns)
  datatypes := operation.datatypesAfter frame.datatypes

variable {frame result : Frame}

/-- What holds of a column before an operation holds of it afterwards, if its cells are kept. -/
theorem forall_mem_rows_after_iff {operation : Operation} (h : operation.Applies frame)
    {column : String}
    (hcell : ∀ row, ∀ row' ∈ operation.rowsAfter frame.columns row,
      row'.cell column = row.cell column) (P : Value → Prop) :
    (∀ row' ∈ (frame.after operation).rows, P (row'.cell column)) ↔
      ∀ row ∈ frame.rows, P (row.cell column) := by
  constructor
  · intro hall row hrow
    obtain ⟨row', hmem⟩ := List.exists_mem_of_ne_nil _ (h.rowsAfter_ne_nil hrow)
    rw [← hcell row row' hmem]
    exact hall row' (List.mem_flatMap.mpr ⟨row, hrow, hmem⟩)
  · intro hall row' hmem
    obtain ⟨row, hrow, hmem⟩ := List.mem_flatMap.mp hmem
    rw [hcell row row' hmem]
    exact hall row hrow

/-- A frame whose rows have each been replaced by a single one. -/
private theorem after_eq {operation : Operation} {f : Row → Row}
    (h : ∀ row, operation.rowsAfter frame.columns row = [f row]) :
    frame.after operation =
      { columns := operation.columnsAfter frame.columns
        rows := frame.rows.map f
        datatypes := operation.datatypesAfter frame.datatypes } := by
  rw [after, funext h, ← List.map_eq_flatMap]

/-- **What operations do.** An operation succeeds where it applies, and there it has one result. -/
theorem perform_eq_ok_iff {operation : Operation} :
    frame.perform operation = .ok result ↔
      operation.Applies frame ∧ result = frame.after operation := by
  cases operation with
  | explode column =>
    by_cases hmem : column ∈ frame.columns
    · refine ((explode_ends hmem).eq_ok_iff ?_).trans (and_congr_left' (and_iff_right hmem).symm)
      rintro _ ⟨-, row, hrow, hnone⟩ hall
      exact absurd (hnone.symm.trans (hall row hrow)) (by simp)
    · refine iff_of_false (fun h => ?_) fun h => hmem h.1.1
      rw [perform, explode, requireColumn_eq_error hmem] at h
      contradiction
  | unnest column lead fields =>
    have hafter : frame.after (.unnest column lead fields) = _ := after_eq fun _ => rfl
    by_cases hmem : column ∈ frame.columns
    · rcases free_or_unnest_eq_error hmem lead fields with
        hfree | ⟨name, hname, hin, hne, herror⟩
      · rw [hafter]
        refine ((unnest_ends hmem hfree).eq_ok_iff ?_).trans (and_congr_left' ?_)
        · rintro _ ⟨-, row, hrow, hnone⟩ hall
          exact absurd (hnone.symm.trans (hall row hrow)) (by simp)
        · exact ⟨fun hall => ⟨hmem, hfree, hall⟩, fun h => h.2.2⟩
      · refine iff_of_false (fun h => ?_) fun h => hne (h.1.2.1 name hname hin)
        rw [perform, herror] at h
        contradiction
    · refine iff_of_false (fun h => ?_) fun h => hmem h.1.1
      rw [perform, unnest, requireColumn_eq_error hmem] at h
      contradiction
  | rename mapping =>
    rw [after_eq fun _ => rfl, perform]
    by_cases hnodup : (frame.columns.map (renamed mapping)).Nodup
    · rw [rename_eq_ok hnodup, Except.ok.injEq, eq_comm]
      exact (and_iff_right hnodup).symm
    · obtain ⟨name, herror⟩ := rename_eq_error hnodup
      rw [herror]
      exact iff_of_false (by simp) fun h => hnodup h.1
  | select kept =>
    rw [after_eq fun _ => rfl, perform]
    by_cases hall : ∀ column ∈ kept, column ∈ frame.columns
    · rw [select_eq_ok hall, Except.ok.injEq, eq_comm]
      exact (and_iff_right hall).symm
    · refine iff_of_false (fun h => ?_) fun h => hall h.1
      obtain ⟨_, hrequired, -⟩ := bind_eq_ok_iff.mp h
      exact hall (forM_requireColumn_eq_ok_iff.mp hrequired)
  | addNulls column datatype =>
    rw [after_eq fun _ => rfl, perform, addNulls]
    by_cases hmem : column ∈ frame.columns
    · rw [if_pos hmem]
      exact iff_of_false (by simp) fun h => h.1 hmem
    · rw [if_neg hmem, Except.ok.injEq, eq_comm]
      exact (and_iff_right hmem).symm

/-- Where an operation does not apply, it fails. -/
theorem exists_perform_eq_error_iff (operation : Operation) :
    (∃ error, frame.perform operation = .error error) ↔ ¬operation.Applies frame := by
  cases hrun : frame.perform operation with
  | error error =>
    refine iff_of_true ⟨error, rfl⟩ fun happlies => ?_
    have hok := perform_eq_ok_iff.mpr ⟨happlies, rfl⟩
    exact absurd (hrun.symm.trans hok) (by simp)
  | ok result => exact iff_of_false (by simp) fun h => h (perform_eq_ok_iff.mp hrun).1

/-! ### Any number of operations -/

/-- Does some operations to a frame, one after the other. -/
def performAll (frame : Frame) (operations : List Operation) : Except FrameError Frame :=
  operations.foldlM (fun frame operation => frame.perform operation) frame

theorem performAll_cons_eq_ok_iff {operation : Operation} {operations : List Operation} :
    frame.performAll (operation :: operations) = .ok result ↔
      operation.Applies frame ∧ (frame.after operation).performAll operations = .ok result := by
  rw [performAll, List.foldlM_cons, bind_eq_ok_iff]
  constructor
  · rintro ⟨_, hfirst, hrest⟩
    obtain ⟨happlies, rfl⟩ := perform_eq_ok_iff.mp hfirst
    exact ⟨happlies, hrest⟩
  · rintro ⟨happlies, hrest⟩
    exact ⟨_, perform_eq_ok_iff.mpr ⟨happlies, rfl⟩, hrest⟩

/-- What a frame remembers has nothing to do with its columns and rows. -/
theorem datatypes_of_performAll {operations : List Operation} : ∀ {frame : Frame},
    frame.performAll operations = .ok result →
      result.datatypes = operations.foldl
        (fun datatypes operation => operation.datatypesAfter datatypes) frame.datatypes := by
  induction operations with
  | nil =>
    intro frame hrun
    obtain rfl := Except.ok.inj hrun
    rfl
  | cons operation rest ih =>
    intro frame hrun
    exact ih (performAll_cons_eq_ok_iff.mp hrun).2

end Frame

end NestedRecords
