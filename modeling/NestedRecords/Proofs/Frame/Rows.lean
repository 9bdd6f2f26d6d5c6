import Mathlib.Data.List.Nodup
import NestedRecords.Frame
import NestedRecords.Proofs.Assoc
import NestedRecords.Proofs.Columns

/-!
# Cells of rows

What a row says about a column, for the ways in which operations make rows: from a list of
columns, from another row with one column spread out, with the columns renamed, or with one cell
set. Where a row has distinct keys, its cells are read off wherever they stand. Otherwise the first
cell of a column counts, and then it has to be known that no other one comes in front of it: no new
column is called like one that stays.
-/

namespace NestedRecords

namespace Row

theorem cell_of_mem {row : Row} {column : String} {value : Value} (h : (Assoc.keys row).Nodup)
    (hmem : (column, value) ∈ row) : row.cell column = value := by
  rw [cell, Assoc.lookup_eq_some_of_mem h hmem]
  rfl

theorem cell_of_notMem {row : Row} {column : String} (h : column ∉ Assoc.keys row) :
    row.cell column = .null := by
  rw [cell, Assoc.lookup_eq_none_iff.mpr h]
  rfl

/-! ### Rows over given columns -/

theorem keys_map (columns : List String) (f : String → Value) :
    Assoc.keys (columns.map fun column => (column, f column)) = columns := by
  rw [Assoc.keys, List.map_map]
  exact List.map_id columns

theorem cell_map {columns : List String} {column : String} (h : column ∈ columns)
    (f : String → Value) :
    cell (columns.map fun column => (column, f column)) column = f column := by
  induction columns with
  | nil => contradiction
  | cons first rest ih =>
    by_cases heq : column = first
    · rw [cell, List.map_cons, List.lookup_cons, heq, beq_self_eq_true]
      rfl
    · rw [cell, List.map_cons, List.lookup_cons, beq_false_of_ne heq]
      exact ih ((List.mem_cons.mp h).resolve_left heq)

/-! ### Spreading a column -/

/-- The row in which a column has given way to some members of its value. -/
def spread (columns : List String) (column lead : String) (fields : List String)
    (members row : Row) : Row :=
  columns.flatMap fun existing =>
    if existing = column then fields.map fun field => (lead ++ field, members.cell field)
    else [(existing, row.cell existing)]

variable {columns fields : List String} {column lead : String} {members row : Row}

theorem keys_spread : Assoc.keys (spread columns column lead fields members row) =
    NestedRecords.spread column (fields.map (lead ++ ·)) columns := by
  rw [Assoc.keys, spread, List.map_flatMap]
  refine congrArg columns.flatMap (funext fun existing => ?_)
  split
  · rw [List.map_map]
    rfl
  · rfl

/-- The new columns hold the members. -/
theorem cell_spread_field
    (hdistinct : (NestedRecords.spread column (fields.map (lead ++ ·)) columns).Nodup)
    (hcolumn : column ∈ columns) {field : String} (h : field ∈ fields) :
    (spread columns column lead fields members row).cell (lead ++ field) = members.cell field := by
  refine cell_of_mem (keys_spread ▸ hdistinct) (List.mem_flatMap.mpr ⟨column, hcolumn, ?_⟩)
  rw [if_pos rfl]
  exact List.mem_map_of_mem h

/-- The other columns keep their values, however the new ones are called that are not among
them. -/
theorem cell_spread_of_mem {other : String} (hmem : other ∈ columns) (hne : other ≠ column)
    (hnew : other ∉ fields.map (lead ++ ·)) :
    (spread columns column lead fields members row).cell other = row.cell other := by
  induction columns with
  | nil => contradiction
  | cons first rest ih =>
    rw [spread, List.flatMap_cons, cell, List.lookup_append]
    by_cases heq : other = first
    · obtain rfl := heq
      rw [if_neg hne, List.lookup_cons, beq_self_eq_true]
      rfl
    · have hnone : List.lookup other (if first = column then
          fields.map fun field => (lead ++ field, members.cell field)
          else [(first, row.cell first)]) = none := by
        refine Assoc.lookup_eq_none_iff.mpr ?_
        split
        · rw [Assoc.keys, List.map_map]
          exact hnew
        · exact mt List.mem_singleton.mp heq
      rw [hnone, Option.none_or]
      exact ih ((List.mem_cons.mp hmem).resolve_left heq)

/-- The other columns keep their values, and the columns that are not there have none. -/
theorem cell_spread_other (hkeys : Assoc.keys row = columns) {other : String}
    (hne : other ≠ column) (hnew : other ∉ fields.map (lead ++ ·)) :
    (spread columns column lead fields members row).cell other = row.cell other := by
  by_cases hmem : other ∈ columns
  · exact cell_spread_of_mem hmem hne hnew
  · rw [cell_of_notMem (keys_spread ▸ notMem_spread hmem hnew), cell_of_notMem (hkeys ▸ hmem)]

/-! ### Renaming columns -/

/-- A column that no new name is given to keeps its own. -/
theorem renamed_of_notMem {mapping : List (String × String)}
    (h : column ∉ mapping.map Prod.fst) : renamed mapping column = column := by
  rw [renamed, Assoc.lookup_eq_none_iff.mpr h]
  rfl

/-- A column takes its value along to its new name, if no other one gets that name. -/
theorem cell_rename_of_unique {g : String → String}
    (h : ∀ key ∈ Assoc.keys row, g key = g column → key = column) :
    cell (row.map fun pair => (g pair.1, pair.2)) (g column) = row.cell column := by
  rw [cell, cell, Assoc.lookup_map_of_unique h]

/-- A column that is there takes its value along to its new name. -/
theorem cell_rename {g : String → String} (hrenamed : ((Assoc.keys row).map g).Nodup)
    (h : column ∈ Assoc.keys row) :
    cell (row.map fun pair => (g pair.1, pair.2)) (g column) = row.cell column :=
  cell_rename_of_unique fun _ hkey => List.inj_on_of_nodup_map hrenamed hkey h

/-! ### Setting a cell -/

/-- Setting a cell to null changes nothing where it was null before. -/
theorem cell_insert_null (h : row.cell column = .null) :
    Row.cell (Assoc.insert column .null row) = row.cell := by
  funext c
  rw [cell_insert]
  split
  · rename_i heq
    rw [heq, h]
  · rfl

/-- Only the cells of the columns count that are spread over. -/
theorem spread_congr {row' : Row}
    (h : ∀ existing ∈ columns, row'.cell existing = row.cell existing) :
    spread columns column lead fields members row' =
      spread columns column lead fields members row := by
  refine List.flatMap_congr fun existing hexisting => ?_
  rw [h existing hexisting]

/-- A cell of another column can be set before or after a column is spread out. -/
theorem spread_insert {other : String} (hdistinct : columns.Nodup) (hmem : other ∈ columns)
    (hne : other ≠ column) (hnew : other ∉ fields.map (lead ++ ·)) (value : Value) :
    spread columns column lead fields members (Assoc.insert other value row) =
      Assoc.insert other value (spread columns column lead fields members row) := by
  obtain ⟨front, back, rfl⟩ := List.append_of_mem hmem
  obtain ⟨-, hback, hfront⟩ := List.nodup_append.mp hdistinct
  have hout : other ∉ front := fun hin => hfront other hin other List.mem_cons_self rfl
  have hkeep : ∀ names : List String, other ∉ names →
      spread names column lead fields members (Assoc.insert other value row) =
        spread names column lead fields members row := by
    refine fun names hnames => spread_congr fun existing hexisting => ?_
    have hother : existing ≠ other := fun heq => hnames (heq ▸ hexisting)
    rw [cell_insert, if_neg hother]
  -- the columns in front of the one that is set and those behind it do not see the change
  have hplace : ∀ row : Row, spread (front ++ other :: back) column lead fields members row =
      spread front column lead fields members row ++
        (other, row.cell other) :: spread back column lead fields members row := by
    intro row
    rw [spread, List.flatMap_append, List.flatMap_cons, if_neg hne]
    rfl
  have hkeys : other ∉ Assoc.keys (spread front column lead fields members row) := by
    rw [keys_spread]
    exact notMem_spread hout hnew
  rw [hplace, hplace, hkeep front hout, hkeep back (List.nodup_cons.mp hback).1, cell_insert,
    if_pos rfl, Assoc.insert_append hkeys, Assoc.insert, if_pos rfl]

/-! ### Rows as maps -/

/-- A row as a map from columns to values. -/
def asMap (row : Row) : String → Option Value := fun column => row.lookup column

/-- Two cells can be set in either order. -/
theorem asMap_insert_comm {other : String} (h : column ≠ other) (value value' : Value) :
    asMap (Assoc.insert other value' (Assoc.insert column value row)) =
      asMap (Assoc.insert column value (Assoc.insert other value' row)) :=
  funext (Assoc.lookup_insert_comm h value value')

end Row

end NestedRecords
