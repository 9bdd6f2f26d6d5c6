import Mathlib.Data.List.Forall2
import NestedRecords.Frame.Ndjson
import NestedRecords.Proofs.Frame.Effects
import NestedRecords.Proofs.Frame.Records

/-!
# What operations keep

The rows of a frame are sparse: a row may lack a cell for a column, and nothing in the type of
frames rules out a cell for a column that the frame does not have. Such a stale cell would do harm
later on, when some column is given its name. It never comes up. A frame is *regular* when its
columns are distinct and its rows have cells for no other columns; frames that are read from records
are regular, and an operation leaves a regular frame regular, whether it succeeds or fails
(`Frame.Regular.attempt`). The lists that are passed to `select` and `unnest` have to be distinct
for that, since they become columns as they are.

In a regular frame each column has its own cells. So operations touch only what they name: a
renaming hands the cells of all columns on at once, along a cycle just as well, and other operations
leave the columns alone that are not theirs (`Frame.IsRead.regular_attempts`).
-/

namespace NestedRecords

open List

namespace Operation

/-- The lists of columns and of fields that an operation is given have no repetitions. -/
def Distinct : Operation → Prop
  | unnest _ _ fields => fields.Nodup
  | select kept => kept.Nodup
  | _ => True

/-- The columns whose values or names an operation is about. What is selected is not, since it
stays what it is. -/
def named : Operation → List String
  | explode column => [column]
  | unnest column _ _ => [column]
  | rename mapping => mapping.map Prod.fst
  | select _ => []
  | addNulls column _ => [column]

/-- How many rows a row gives way to. -/
def copies : Operation → Row → Nat
  | explode column, row => (row.cell column).items.length
  | _, _ => 1

theorem length_rowsAfter (operation : Operation) (columns : List String) (row : Row) :
    (operation.rowsAfter columns row).length = operation.copies row := by
  cases operation with
  | explode column => exact List.length_map _
  | _ => rfl

end Operation

namespace Frame

/-- **Regular frames.** The columns are distinct, and rows have cells for no other columns. -/
structure Regular (frame : Frame) : Prop where
  distinct : frame.columns.Nodup
  keys : ∀ row ∈ frame.rows, Assoc.keys row ⊆ frame.columns

/-- Frames as they are read, from records or from a text with one record to a line. -/
inductive IsRead : Frame → Prop
  | records (records : List Value) : IsRead (ofRecords records)
  | ndjson {content : Text} {frame : Frame} (h : ofNdjson content = .ok frame) : IsRead frame

/-- A frame after an operation was tried on it. A failure leaves it as it was. -/
def attempt (frame : Frame) (operation : Operation) : Frame :=
  match frame.perform operation with
  | .ok after => after
  | .error _ => frame

/-- **What an operation leaves alone.** Each row has given way in its place to rows of its own, and
to at least one. In all of them, the columns that are there before and after and that the operation
does not name hold what they held. -/
def Keeps (operation : Operation) (frame after : Frame) : Prop :=
  ∃ blocks : List (List Row), after.rows = blocks.flatten ∧
    Forall₂ (fun row block => block ≠ [] ∧ block.length = operation.copies row ∧
      ∀ row' ∈ block, ∀ column ∈ frame.columns, column ∈ after.columns →
        column ∉ operation.named → row'.cell column = row.cell column) frame.rows blocks

variable {frame : Frame} {operation : Operation}

/-! ### Regularity -/

theorem regular_ofRecords (records : List Value) : (ofRecords records).Regular where
  distinct := nodup_eraseDups _
  keys := by
    intro row hrow name hname
    obtain ⟨record, hrecord, rfl⟩ := List.mem_map.mp hrow
    exact mem_columns_ofRecords hrecord hname

theorem IsRead.regular (h : frame.IsRead) : frame.Regular := by
  cases h with
  | records records => exact regular_ofRecords records
  | ndjson h =>
    obtain ⟨records, -, hframe⟩ := bind_eq_ok_iff.mp h
    obtain rfl := Except.ok.inj hframe
    exact regular_ofRecords records

namespace Regular

/-- The columns stay distinct. -/
theorem nodup_columnsAfter (h : frame.Regular) (happlies : operation.Applies frame)
    (hdistinct : operation.Distinct) : (operation.columnsAfter frame.columns).Nodup := by
  cases operation with
  | explode column => exact h.distinct
  | unnest column lead fields =>
    have hfields : (fields.map (lead ++ ·)).Nodup :=
      hdistinct.map fun _ _ heq => (String.append_right_inj lead).mp heq
    exact nodup_spread h.distinct happlies.1 hfields happlies.2.1
  | rename mapping => exact happlies
  | select kept => exact hdistinct
  | addNulls column datatype => exact nodup_concat_iff.mpr ⟨h.distinct, happlies⟩

/-- No row gets a cell for a column that is not there. -/
theorem keys_subset_columnsAfter (h : frame.Regular) (happlies : operation.Applies frame)
    {row row' : Row} (hrow : row ∈ frame.rows)
    (hmem : row' ∈ operation.rowsAfter frame.columns row) :
    Assoc.keys row' ⊆ operation.columnsAfter frame.columns := by
  have hkeys : Assoc.keys row ⊆ frame.columns := h.keys row hrow
  cases operation with
  | explode column =>
    obtain ⟨item, -, rfl⟩ := List.mem_map.mp hmem
    intro name hname
    rcases Assoc.mem_keys_insert_iff.mp hname with rfl | hname
    · exact happlies.1
    · exact hkeys hname
  | unnest column lead fields =>
    obtain rfl := List.mem_singleton.mp hmem
    rw [Row.keys_spread]
    exact List.Subset.refl _
  | rename mapping =>
    obtain rfl := List.mem_singleton.mp hmem
    rw [Assoc.keys_rename]
    exact List.map_subset _ hkeys
  | select kept =>
    obtain rfl := List.mem_singleton.mp hmem
    rw [Row.keys_map]
    exact List.Subset.refl _
  | addNulls column datatype =>
    obtain rfl := List.mem_singleton.mp hmem
    intro name hname
    rcases Assoc.mem_keys_insert_iff.mp hname with rfl | hname
    · exact List.mem_append_right _ (List.mem_singleton_self _)
    · exact List.mem_append_left _ (hkeys hname)

/-- **Step lemma.** An operation that applies leaves a regular frame regular. -/
theorem after (h : frame.Regular) (happlies : operation.Applies frame)
    (hdistinct : operation.Distinct) : (frame.after operation).Regular where
  distinct := h.nodup_columnsAfter happlies hdistinct
  keys := by
    intro row' hmem
    obtain ⟨row, hrow, hmem⟩ := List.mem_flatMap.mp hmem
    exact h.keys_subset_columnsAfter happlies hrow hmem

/-- **Step lemma.** Trying an operation leaves a regular frame regular. -/
theorem attempt (h : frame.Regular) (hdistinct : operation.Distinct) :
    (frame.attempt operation).Regular := by
  unfold Frame.attempt
  split
  · rename_i result hrun
    obtain ⟨happlies, rfl⟩ := perform_eq_ok_iff.mp hrun
    exact h.after happlies hdistinct
  · exact h

/-- **Run lemma.** -/
theorem foldl_attempt {operations : List Operation} :
    ∀ {frame : Frame}, frame.Regular → (∀ operation ∈ operations, operation.Distinct) →
      (operations.foldl Frame.attempt frame).Regular := by
  induction operations with
  | nil => exact fun h _ => h
  | cons operation rest ih =>
    intro frame h hdistinct
    obtain ⟨hfirst, hrest⟩ := List.forall_mem_cons.mp hdistinct
    exact ih (h.attempt hfirst) hrest

/-! ### Cells -/

/-- In a regular frame no two columns can be renamed alike, or the renaming fails. -/
theorem exists_rename_eq_error_iff (h : frame.Regular) {mapping : List (String × String)} :
    (∃ error, frame.rename mapping = .error error) ↔
      ∃ c ∈ frame.columns, ∃ d ∈ frame.columns, c ≠ d ∧ renamed mapping c = renamed mapping d := by
  have hiff : (∃ error, frame.rename mapping = .error error) ↔
      ¬(frame.columns.map (renamed mapping)).Nodup :=
    exists_perform_eq_error_iff (.rename mapping)
  rw [hiff, List.nodup_map_iff_inj_on h.distinct]
  push Not
  refine exists_congr fun c => and_congr_right fun _ => exists_congr fun d =>
    and_congr_right fun _ => and_comm

/-- A renaming hands on the cells of every column. -/
theorem cell_renamed (h : frame.Regular) {mapping : List (String × String)}
    (hrenamed : (frame.columns.map (renamed mapping)).Nodup) {row : Row} (hrow : row ∈ frame.rows)
    {column : String} (hcolumn : column ∈ frame.columns) :
    Row.cell (row.map fun cell => (renamed mapping cell.1, cell.2)) (renamed mapping column) =
      row.cell column :=
  Row.cell_rename_of_unique fun _ hkey =>
    List.inj_on_of_nodup_map hrenamed (h.keys row hrow hkey) hcolumn

/-- The columns that an operation does not name keep their cells. -/
theorem cell_rowsAfter (h : frame.Regular) (happlies : operation.Applies frame) {row row' : Row}
    (hrow : row ∈ frame.rows) (hmem : row' ∈ operation.rowsAfter frame.columns row)
    {column : String} (hcolumn : column ∈ frame.columns)
    (hafter : column ∈ operation.columnsAfter frame.columns) (hnamed : column ∉ operation.named) :
    row'.cell column = row.cell column := by
  cases operation with
  | explode exploded =>
    obtain ⟨item, -, rfl⟩ := List.mem_map.mp hmem
    rw [Row.cell_insert, if_neg (mt List.mem_singleton.mpr hnamed)]
  | unnest unnested lead fields =>
    obtain rfl := List.mem_singleton.mp hmem
    have hne : column ≠ unnested := mt List.mem_singleton.mpr hnamed
    exact Row.cell_spread_of_mem hcolumn hne fun hnew => hne (happlies.2.1 column hnew hcolumn)
  | rename mapping =>
    obtain rfl := List.mem_singleton.mp hmem
    have hcell := h.cell_renamed happlies hrow hcolumn
    rwa [Row.renamed_of_notMem hnamed] at hcell
  | select kept =>
    obtain rfl := List.mem_singleton.mp hmem
    exact Row.cell_map hafter row.cell
  | addNulls added datatype =>
    obtain rfl := List.mem_singleton.mp hmem
    rw [Row.cell_insert, if_neg (mt List.mem_singleton.mpr hnamed)]

/-- **Operations keep to what they name.** -/
theorem keeps (h : frame.Regular) (happlies : operation.Applies frame) :
    frame.Keeps operation (frame.after operation) := by
  refine ⟨frame.rows.map (operation.rowsAfter frame.columns), List.flatMap_def, ?_⟩
  rw [forall₂_map_right_iff, forall₂_same]
  intro row hrow
  refine ⟨happlies.rowsAfter_ne_nil hrow, operation.length_rowsAfter _ row, ?_⟩
  exact fun row' hmem column hcolumn hafter hnamed =>
    h.cell_rowsAfter happlies hrow hmem hcolumn hafter hnamed

end Regular

/-! ### Any number of operations -/

/-- **Frames stay regular.** Whatever is done to a frame that was read, its columns stay distinct
and its rows have cells for no other columns. A renaming then fails exactly when it gives two
columns one name. Otherwise it hands on the cells of all columns, those that are swapped included.
And an operation of any kind changes nothing about the columns that it does not name. -/
theorem IsRead.regular_attempts {start : Frame} (h : start.IsRead) {operations : List Operation}
    (hdistinct : ∀ operation ∈ operations, operation.Distinct) :
    let frame := operations.foldl attempt start
    frame.Regular ∧
      (∀ mapping : List (String × String),
        ((∃ error, frame.rename mapping = .error error) ↔
          ∃ c ∈ frame.columns, ∃ d ∈ frame.columns,
            c ≠ d ∧ renamed mapping c = renamed mapping d) ∧
        ∀ after, frame.rename mapping = .ok after →
          after.columns = frame.columns.map (renamed mapping) ∧
          Forall₂ (fun row row' => ∀ column ∈ frame.columns,
            row'.cell (renamed mapping column) = row.cell column) frame.rows after.rows) ∧
      ∀ operation after, frame.perform operation = .ok after → frame.Keeps operation after := by
  intro frame
  have hregular : frame.Regular := h.regular.foldl_attempt hdistinct
  refine ⟨hregular, fun mapping => ⟨hregular.exists_rename_eq_error_iff, ?_⟩, ?_⟩
  · intro after hrun
    have hperform : frame.perform (.rename mapping) = .ok after := hrun
    obtain ⟨hrenamed, rfl⟩ := perform_eq_ok_iff.mp hperform
    refine ⟨rfl, ?_⟩
    have hrows : (frame.after (.rename mapping)).rows =
        frame.rows.map fun row => row.map fun cell => (renamed mapping cell.1, cell.2) :=
      List.map_eq_flatMap.symm
    rw [hrows, forall₂_map_right_iff, forall₂_same]
    exact fun row hrow column hcolumn => hregular.cell_renamed hrenamed hrow hcolumn
  · intro operation after hrun
    obtain ⟨happlies, rfl⟩ := perform_eq_ok_iff.mp hrun
    exact hregular.keeps happlies

/-- Of sparse records, a column that cannot be exploded, another one that can but not be unnested
over a third one, and two that swap their names. -/
theorem IsRead.regular_attempts_swap :
    let operations : List Operation := [.explode "a", .explode "b", .unnest "b" "" ["a"]]
    let frame := operations.foldl attempt (ofRecords
      [.object [("a", .string "x"), ("b", .array [.string "y", .string "z"])],
        .object [("c", .string "w")]])
    let swap := [("a", "c"), ("c", "a")]
    frame.Regular ∧ frame.rows.map (·.cell "b") = [.string "y", .string "z", .null] ∧
      ∃ after, frame.rename swap = .ok after ∧ after.columns = ["c", "b", "a"] ∧
        Forall₂ (fun row row' => ∀ column ∈ frame.columns,
          row'.cell (renamed swap column) = row.cell column) frame.rows after.rows := by
  intro operations frame swap
  have hdistinct : ∀ operation ∈ operations, operation.Distinct := by
    simp [operations, Operation.Distinct]
  obtain ⟨hregular, hrename, -⟩ := (IsRead.records
    [.object [("a", .string "x"), ("b", .array [.string "y", .string "z"])],
      .object [("c", .string "w")]]).regular_attempts hdistinct
  have hcolumns : frame.columns = ["a", "b", "c"] := by decide +kernel
  cases hrun : frame.rename swap with
  | error error =>
    have hnone : ¬∃ c ∈ frame.columns, ∃ d ∈ frame.columns,
        c ≠ d ∧ renamed swap c = renamed swap d := by
      rw [hcolumns]
      decide
    exact absurd ((hrename swap).1.mp ⟨error, hrun⟩) hnone
  | ok after =>
    obtain ⟨hafter, hcells⟩ := (hrename swap).2 after hrun
    refine ⟨hregular, by decide +kernel, after, rfl, ?_, hcells⟩
    rw [hafter, hcolumns]
    decide

end Frame

end NestedRecords
