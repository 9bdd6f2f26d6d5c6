import NestedRecords.Proofs.Frame.Rows
import NestedRecords.Proofs.Outcome

/-!
# What the operations on frames do

One lemma for each of the five operations: under which condition it has a result, what that is,
and how it ends otherwise. The conditions are about columns alone. Where they hold, renaming,
selecting and adding a column always succeed, and exploding and unnesting fail only on a cell
that holds a value of another shape; `FrameError.IsMisfit` sets these failures apart.

A frame is *rectangular* when each of its rows has the columns of the frame as its keys. The
operations need that of each other: a row with stray cells would bring them back under a new
name.
-/

namespace NestedRecords

/-- The values of a column are not of the shape that was to be taken apart. Of all errors these are
the ones about types. -/
inductive FrameError.IsMisfit : FrameError → Prop
  | notLists (column : String) : IsMisfit (.notLists column)
  | notStructs (column : String) : IsMisfit (.notStructs column)

namespace Value

/-- The items that a value gives rows to, if it is a list at all. -/
def items (value : Value) : List Value := value.items?.getD []

/-- The members that a value gives columns to, if it is a struct at all. -/
def members (value : Value) : Row := value.members?.getD []

/-- No row is lost when a list is taken apart. -/
theorem items_ne_nil {value : Value} {items : List Value} (h : value.items? = some items) :
    items ≠ [] := by
  match value, h with
  | .null, rfl => exact List.cons_ne_nil _ _
  | .array [], rfl => exact List.cons_ne_nil _ _
  | .array (_ :: _), rfl => exact List.cons_ne_nil _ _

end Value

namespace Frame

variable {frame : Frame} {column : String}

/-- The rows of the frame have a cell for each of its columns and no other cell. -/
def Rectangular (frame : Frame) : Prop := ∀ row ∈ frame.rows, Assoc.keys row = frame.columns

theorem requireColumn_eq_ok (h : column ∈ frame.columns) : frame.requireColumn column = .ok () :=
  if_pos h

theorem requireColumn_eq_error (h : column ∉ frame.columns) :
    frame.requireColumn column = .error (.unknownColumn column) :=
  if_neg h

/-! ### Exploding and unnesting -/

/-- **Exploding.** Every row gives way to one row for each of the items in the column. -/
theorem explode_ends (h : column ∈ frame.columns) :
    Ends (fun error => error.IsMisfit ∧ ∃ row ∈ frame.rows, (row.cell column).items? = none)
      (fun exploded =>
        (∀ row ∈ frame.rows, (row.cell column).items? = some (row.cell column).items) ∧
        exploded = { frame with
          rows := frame.rows.flatMap fun row =>
            (row.cell column).items.map fun item => Assoc.insert column item row })
      (frame.explode column) := by
  have hrows : ∀ row ∈ frame.rows,
      Ends (fun error => error.IsMisfit ∧ ∃ row ∈ frame.rows, (row.cell column).items? = none)
        (fun rows => (row.cell column).items? = some (row.cell column).items ∧
          rows = (row.cell column).items.map fun item => Assoc.insert column item row)
        (explodeRow column row) := by
    intro row hmem
    unfold explodeRow Value.items
    split
    · rename_i items hitems
      rw [hitems]
      exact .ok ⟨rfl, rfl⟩
    · rename_i hitems
      exact .error ⟨.notLists column, row, hmem, hitems⟩
  rw [explode, requireColumn_eq_ok h, ok_bind]
  refine (Ends.mapM hrows).bind fun rows hmapped => .ok ⟨hmapped.1, ?_⟩
  rw [hmapped.2, List.flatMap_def]

/-- **Unnesting.** In every row the column gives way to members of its value. -/
theorem unnest_ends {lead : String} {fields : List String} (h : column ∈ frame.columns)
    (hfree : ∀ name ∈ fields.map (lead ++ ·), name ∈ frame.columns → name = column) :
    Ends (fun error => error.IsMisfit ∧ ∃ row ∈ frame.rows, (row.cell column).members? = none)
      (fun unnested =>
        (∀ row ∈ frame.rows, (row.cell column).members? = some (row.cell column).members) ∧
        unnested = { frame with
          columns := spread column (fields.map (lead ++ ·)) frame.columns
          rows := frame.rows.map fun row =>
            Row.spread frame.columns column lead fields (row.cell column).members row })
      (frame.unnest column lead fields) := by
  have hrows : ∀ row ∈ frame.rows,
      Ends (fun error => error.IsMisfit ∧ ∃ row ∈ frame.rows, (row.cell column).members? = none)
        (fun unnested => (row.cell column).members? = some (row.cell column).members ∧
          unnested = Row.spread frame.columns column lead fields (row.cell column).members row)
        (unnestRow frame.columns column lead fields row) := by
    intro row hmem
    unfold unnestRow Value.members
    split
    · rename_i members hmembers
      rw [hmembers]
      exact .ok ⟨rfl, rfl⟩
    · rename_i hmembers
      exact .error ⟨.notStructs column, row, hmem, hmembers⟩
  have hnone : (fields.map (lead ++ ·)).find? (fun name => name ≠ column ∧ name ∈ frame.columns) =
      none := by
    refine List.find?_eq_none.mpr fun name hname => ?_
    simpa using fun hne hmem => hne (hfree name hname hmem)
  rw [unnest, requireColumn_eq_ok h, ok_bind]
  dsimp only
  rw [hnone]
  refine (Ends.mapM hrows).bind fun rows hmapped => .ok ⟨hmapped.1, ?_⟩
  rw [hmapped.2]
  rfl

/-- The names that a struct would spread out to are free, or unnesting fails on one of them. -/
theorem free_or_unnest_eq_error (h : column ∈ frame.columns) (lead : String)
    (fields : List String) :
    (∀ name ∈ fields.map (lead ++ ·), name ∈ frame.columns → name = column) ∨
      ∃ name ∈ fields.map (lead ++ ·), name ∈ frame.columns ∧ name ≠ column ∧
        frame.unnest column lead fields = .error (.existingColumn name) := by
  cases hfind : (fields.map (lead ++ ·)).find?
      fun name => name ≠ column ∧ name ∈ frame.columns with
  | some name =>
    obtain ⟨hne, hin⟩ : name ≠ column ∧ name ∈ frame.columns := by
      simpa using List.find?_some hfind
    refine .inr ⟨name, List.mem_of_find?_eq_some hfind, hin, hne, ?_⟩
    rw [unnest, requireColumn_eq_ok h, ok_bind]
    dsimp only
    rw [hfind]
    rfl
  | none =>
    exact .inl fun name hname hin => Decidable.byContradiction fun hne =>
      List.find?_eq_none.mp hfind name hname (decide_eq_true ⟨hne, hin⟩)

/-! ### Selecting, adding and renaming -/

theorem forM_requireColumn_eq_ok_iff {columns : List String} :
    columns.forM frame.requireColumn = .ok () ↔ ∀ column ∈ columns, column ∈ frame.columns := by
  induction columns with
  | nil => exact iff_of_true rfl (List.forall_mem_nil _)
  | cons first rest ih =>
    rw [List.forM_eq_forM, List.forM_cons, List.forall_mem_cons, ← ih]
    by_cases hfirst : first ∈ frame.columns
    · rw [requireColumn_eq_ok hfirst, ok_bind]
      exact (and_iff_right hfirst).symm
    · rw [requireColumn_eq_error hfirst]
      exact iff_of_false (by simp [bind, Except.bind]) fun h => hfirst h.1

/-- **Selecting.** Columns that are there can be kept, in any order. -/
theorem select_eq_ok {columns : List String} (h : ∀ column ∈ columns, column ∈ frame.columns) :
    frame.select columns = .ok { frame with
      columns
      rows := frame.rows.map fun row => columns.map fun column => (column, row.cell column) } := by
  rw [select, forM_requireColumn_eq_ok_iff.mpr h, ok_bind]
  rfl

/-- **Adding.** Columns of nulls that are not there yet can be added, and no cell changes. -/
theorem addNulls_eq_ok {missing : List (String × Datatype)} :
    ∀ {frame : Frame}, frame.Rectangular → (frame.columns ++ missing.map Prod.fst).Nodup →
      ∃ complete, missing.foldlM (fun frame column => frame.addNulls column.1 column.2) frame =
          .ok complete ∧
        complete.Rectangular ∧ complete.columns = frame.columns ++ missing.map Prod.fst ∧
        complete.rows.map Row.cell = frame.rows.map Row.cell := by
  induction missing with
  | nil =>
    intro frame hrectangular _
    exact ⟨frame, rfl, hrectangular, (List.append_nil _).symm, rfl⟩
  | cons column missing ih =>
    intro frame hrectangular hdistinct
    have hnew : column.1 ∉ frame.columns := fun hmem =>
      (List.nodup_append.mp hdistinct).2.2 _ hmem _ List.mem_cons_self rfl
    let wider : Frame :=
      { columns := frame.columns ++ [column.1]
        rows := frame.rows.map (Assoc.insert column.1 .null)
        datatypes := Assoc.insert column.1 column.2 frame.datatypes }
    have hadd : frame.addNulls column.1 column.2 = .ok wider := if_neg hnew
    have hkeys : wider.Rectangular := by
      intro _ hmem
      obtain ⟨row, hrow, rfl⟩ := List.mem_map.mp hmem
      rw [Assoc.keys_insert, hrectangular row hrow, if_neg hnew]
    have hcells : wider.rows.map Row.cell = frame.rows.map Row.cell := by
      rw [List.map_map]
      refine List.map_congr_left fun row hmem => Row.cell_insert_null (Row.cell_of_notMem ?_)
      rw [hrectangular row hmem]
      exact hnew
    have hassoc : (frame.columns ++ [column.1]) ++ missing.map Prod.fst =
        frame.columns ++ (column :: missing).map Prod.fst := by
      rw [List.append_assoc]
      rfl
    rw [← hassoc] at hdistinct ⊢
    obtain ⟨complete, hrun, hrectangular, hcolumns, hrows⟩ := ih hkeys hdistinct
    refine ⟨complete, ?_, hrectangular, hcolumns, hrows.trans hcells⟩
    rw [List.foldlM_cons, hadd, ok_bind]
    exact hrun

/-- Names that have not come up before repeat none exactly when they are distinct. -/
theorem firstRepeat?_eq_none_iff {names : List String} : ∀ {seen : List String}, seen.Nodup →
    (firstRepeat? seen names = none ↔ (seen ++ names).Nodup) := by
  induction names with
  | nil => exact fun hseen => iff_of_true rfl ((List.append_nil _).symm ▸ hseen)
  | cons name rest ih =>
    intro seen hseen
    rw [List.perm_middle.nodup_iff, firstRepeat?]
    split
    · rename_i hmem
      exact iff_of_false (by simp) fun h =>
        (List.nodup_cons.mp h).1 (List.mem_append_left _ hmem)
    · rename_i hnew
      exact ih (List.nodup_cons.mpr ⟨hnew, hseen⟩)

/-- **Renaming.** Columns can be renamed if that leaves them distinct. -/
theorem rename_eq_ok {mapping : List (String × String)}
    (h : (frame.columns.map (renamed mapping)).Nodup) :
    frame.rename mapping = .ok
      { columns := frame.columns.map (renamed mapping)
        rows := frame.rows.map fun row => row.map fun cell => (renamed mapping cell.1, cell.2)
        datatypes := Assoc.ofList
          (frame.datatypes.map fun entry => (renamed mapping entry.1, entry.2)) } := by
  have hnone : firstRepeat? [] (frame.columns.map (renamed mapping)) = none :=
    (firstRepeat?_eq_none_iff List.nodup_nil).mpr h
  unfold rename
  dsimp only
  split
  · rename_i name hsome
    exact absurd (hsome.symm.trans hnone) (by simp)
  · rfl

/-- **Renaming fails.** Where two columns would get one name, no other error can come up. -/
theorem rename_eq_error {mapping : List (String × String)}
    (h : ¬(frame.columns.map (renamed mapping)).Nodup) :
    ∃ name, frame.rename mapping = .error (.renamedTwice name) := by
  have hsome : firstRepeat? [] (frame.columns.map (renamed mapping)) ≠ none :=
    mt (firstRepeat?_eq_none_iff List.nodup_nil).mp h
  unfold rename
  dsimp only
  split
  · rename_i name _
    exact ⟨name, rfl⟩
  · rename_i hnone
    exact absurd hnone hsome

end Frame

end NestedRecords
