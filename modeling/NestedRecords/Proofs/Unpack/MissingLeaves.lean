import Mathlib.Data.List.Forall2
import NestedRecords.Proofs.Unpack.ColumnChecks

/-!
# Leaves that the records do not have

A schema may have fields that none of the records has. Their columns are never there, so the steps
on them are skipped, and all leaves in them are missing in the end. All leaves in other fields are
there. `Unravels.columns_of_run` keeps track of that: every column comes with the field at the root
that it is a part of, and the columns of a frame are at any time those of the fields that are there.

Missing leaves are added as columns of nulls under the names that they have in the plan, and then
renamed together with the others. So what is remembered at the end are the datatypes of these
leaves and nothing else, under the names of the output columns
(`Plan.Executable.datatypeOf?_finish`).
-/

namespace NestedRecords

open List NestedRecords.Tree

/-! ### Leaves and the fields at the root -/

namespace Tree

mutual

/-- How many leaves there are does not hang on the way to them. -/
theorem length_leaves (separator : String) (scope scope' : List String) : ∀ type : Tree,
    (leaves separator scope type).length = (leaves separator scope' type).length
  | .scalar _ => rfl
  | .list element => length_leaves separator ("" :: scope) ("" :: scope') element
  | .struct fields => length_fieldLeaves separator scope scope' fields

theorem length_fieldLeaves (separator : String) (scope scope' : List String) :
    ∀ fields : List (String × Tree),
      (fieldLeaves separator scope fields).length = (fieldLeaves separator scope' fields).length
  | [] => rfl
  | (name, type) :: rest => by
    rw [fieldLeaves, fieldLeaves, length_append, length_append,
      length_leaves separator (name :: scope) (name :: scope') type,
      length_fieldLeaves separator scope scope' rest]

end

/-- For each leaf of some types the mark that its type has. -/
def leafMarks (separator : String) (types : List (Tree × String)) : List String :=
  types.flatMap fun type => (leaves separator [] type.1).map fun _ => type.2

/-- A type has the same mark for each leaf, wherever it stands. -/
theorem map_const_leaves (separator : String) (scope scope' : List String) (type : Tree)
    (mark : String) : (leaves separator scope type).map (fun _ => mark) =
      (leaves separator scope' type).map fun _ => mark := by
  rw [map_const', map_const', length_leaves separator scope scope']

theorem leafMarks_cons (separator : String) (type : Tree) (mark : String)
    (rest : List (Tree × String)) : leafMarks separator ((type, mark) :: rest) =
      (leaves separator [] type).map (fun _ => mark) ++ leafMarks separator rest := rfl

theorem leafMarks_append (separator : String) (types more : List (Tree × String)) :
    leafMarks separator (types ++ more) =
      leafMarks separator types ++ leafMarks separator more := flatMap_append

/-- The leaves of a list are those of its items. -/
theorem leafMarks_list (separator : String) (element : Tree) (mark : String)
    (rest : List (Tree × String)) : leafMarks separator ((.list element, mark) :: rest) =
      leafMarks separator ((element, mark) :: rest) :=
  congrArg (· ++ leafMarks separator rest) (map_const_leaves separator [""] [] element mark)

/-- Fields that all have one mark. -/
theorem leafMarks_fields (separator : String) (scope : List String) (mark : String) :
    ∀ fields : List (String × Tree), leafMarks separator (fields.map fun field => (field.2, mark)) =
      (fieldLeaves separator scope fields).map fun _ => mark
  | [] => rfl
  | (name, type) :: rest => by
    rw [map_cons, leafMarks_cons, fieldLeaves, map_append,
      map_const_leaves separator [] (name :: scope), leafMarks_fields separator scope mark rest]

end Tree

/-- For each leaf of a schema the name of the field at the root that it is a part of. -/
def Schema.leafRoots (schema : Schema) : List String :=
  schema.fields.flatMap fun field =>
    (leaves schema.separator [field.1] field.2).map fun _ => field.1

/-! ### Columns and the fields at the root -/

/-- Of some columns, each with a field at the root, those whose field is there. -/
def presentColumns (present : List String) (columns : List (String × String)) : List String :=
  (columns.filter (·.2 ∈ present)).map Prod.fst

section PresentColumns

variable {present : List String} {columns : List (String × String)} {column root : String}

theorem presentColumns_append (present : List String) (columns more : List (String × String)) :
    presentColumns present (columns ++ more) =
      presentColumns present columns ++ presentColumns present more := by
  rw [presentColumns, filter_append, map_append]
  rfl

theorem presentColumns_sublist (present : List String) (columns : List (String × String)) :
    (presentColumns present columns).Sublist (columns.map Prod.fst) :=
  filter_sublist.map Prod.fst

theorem presentColumns_cons_of_mem (h : root ∈ present) :
    presentColumns present ((column, root) :: columns) =
      column :: presentColumns present columns := by
  rw [presentColumns, filter_cons_of_pos (by simpa using h)]
  rfl

theorem presentColumns_cons_of_notMem (h : root ∉ present) :
    presentColumns present ((column, root) :: columns) = presentColumns present columns := by
  rw [presentColumns, filter_cons_of_neg (by simpa using h)]
  rfl

/-- A column is there when its field is. -/
theorem mem_presentColumns_iff (hdistinct : (columns.map Prod.fst).Nodup)
    (hmem : (column, root) ∈ columns) :
    column ∈ presentColumns present columns ↔ root ∈ present := by
  rw [presentColumns, mem_map]
  constructor
  · rintro ⟨⟨_, root'⟩, hin, rfl⟩
    obtain ⟨hin, hpresent⟩ := mem_filter.mp hin
    obtain rfl : root' = root := congrArg Prod.snd (inj_on_of_nodup_map hdistinct hin hmem rfl)
    exact of_decide_eq_true hpresent
  · exact fun hroot => ⟨_, mem_filter.mpr ⟨hmem, decide_eq_true hroot⟩, rfl⟩

theorem presentColumns_map (present others : List String) (root : String) :
    presentColumns present (others.map (·, root)) = if root ∈ present then others else [] := by
  induction others with
  | nil => exact (ite_self []).symm
  | cons first rest ih =>
    by_cases hroot : root ∈ present
    · rw [map_cons, presentColumns_cons_of_mem hroot, ih, if_pos hroot, if_pos hroot]
    · rw [map_cons, presentColumns_cons_of_notMem hroot, ih, if_neg hroot, if_neg hroot]

/-- A column that gives way to others hands its field on to them, whether it is there or not. -/
theorem spread_presentColumns {done rest : List (String × String)}
    (hdistinct : ((done ++ (column, root) :: rest).map Prod.fst).Nodup) (others : List String) :
    spread column others (presentColumns present (done ++ (column, root) :: rest)) =
      presentColumns present (done ++ others.map (·, root) ++ rest) := by
  have hkept := hdistinct.sublist (presentColumns_sublist present _)
  rw [presentColumns_append, presentColumns_append, presentColumns_append, presentColumns_map]
  rw [presentColumns_append] at hkept
  by_cases hroot : root ∈ present
  · rw [presentColumns_cons_of_mem hroot] at hkept ⊢
    rw [spread_middle hkept, if_pos hroot]
  · have habsent : column ∉ presentColumns present (done ++ (column, root) :: rest) :=
      mt (mem_presentColumns_iff hdistinct (mem_append_right done mem_cons_self)).mp hroot
    rw [presentColumns_append, presentColumns_cons_of_notMem hroot] at habsent
    rw [presentColumns_cons_of_notMem hroot, spread_of_notMem habsent, if_neg hroot, append_nil]

end PresentColumns

/-! ### Running the steps -/

/-- A step that succeeds does to the columns what its operation does, since without its column that
is nothing. It remembers no datatype. -/
theorem Plan.columns_of_runStep {frame after : Frame} {step : Step}
    (h : runStep Frame.engine frame step = .ok after) :
    after.columns = step.operation.columnsAfter frame.columns ∧
      after.datatypes = frame.datatypes := by
  by_cases hmem : step.column ∈ frame.columns
  · have hrun : runStep Frame.engine frame step = frame.perform step.operation := if_pos hmem
    obtain ⟨-, rfl⟩ := Frame.perform_eq_ok_iff.mp (hrun.symm.trans h)
    cases step with
    | explode column => exact ⟨rfl, rfl⟩
    | unnest column lead fields => exact ⟨rfl, rfl⟩
  · have hskip : runStep Frame.engine frame step = .ok frame := if_neg hmem
    obtain rfl := Except.ok.inj (hskip.symm.trans h)
    cases step with
    | explode column => exact ⟨rfl, rfl⟩
    | unnest column lead fields => exact ⟨(spread_of_notMem hmem).symm, rfl⟩

/-- The steps of a plan remember no datatypes. -/
theorem Plan.datatypes_of_runSteps {steps : List Step} {frame flat : Frame}
    (h : steps.foldlM (runStep Frame.engine) frame = .ok flat) :
    flat.datatypes = frame.datatypes :=
  foldlM_invariant (P := fun after => after.datatypes = frame.datatypes)
    (fun _ _ _ hafter hstep => (columns_of_runStep hstep).2.trans hafter) rfl h

/-- Columns that are pending, each with its field at the root. -/
abbrev RootedFields := List ((String × Tree) × String)

namespace RootedFields

/-- Their names. -/
def columns (pending : RootedFields) : List (String × String) :=
  pending.map fun field => (field.1.1, field.2)

/-- Their types. -/
def types (pending : RootedFields) : List (Tree × String) :=
  pending.map fun field => (field.1.2, field.2)

/-- The fields of a struct stand below the same field as the struct. -/
def inside (lead : String) (fields : Fields) (root : String) : RootedFields :=
  (leadFields lead fields).map (·, root)

theorem exists_eq_cons {pending : RootedFields} {field : String × Tree} {fields : Fields}
    (h : pending.map Prod.fst = field :: fields) :
    ∃ (root : String) (rest : RootedFields),
      pending = (field, root) :: rest ∧ rest.map Prod.fst = fields := by
  obtain ⟨⟨_, root⟩, rest, rfl, rfl, hrest⟩ := map_eq_cons_iff.mp h
  exact ⟨root, rest, rfl, hrest⟩

theorem map_fst_columns (pending : RootedFields) :
    pending.columns.map Prod.fst = (pending.map Prod.fst).map Prod.fst := by
  rw [columns, map_map, map_map]
  rfl

theorem map_fst_inside (lead : String) (fields : Fields) (root : String) :
    (inside lead fields root).map Prod.fst = leadFields lead fields := by
  rw [inside, map_map]
  exact map_id _

theorem columns_append (pending more : RootedFields) :
    columns (pending ++ more) = pending.columns ++ more.columns := map_append

theorem types_append (pending more : RootedFields) :
    types (pending ++ more) = pending.types ++ more.types := map_append

theorem columns_inside (lead : String) (fields : Fields) (root : String) :
    (inside lead fields root).columns =
      ((fields.map Prod.fst).map (lead ++ ·)).map (·, root) := by
  rw [inside, leadFields, columns, map_map, map_map, map_map, map_map]
  rfl

theorem leafMarks_inside (separator lead : String) (fields : Fields) (root : String) :
    leafMarks separator (inside lead fields root).types =
      (fieldLeaves separator [] fields).map fun _ => root := by
  rw [inside, leadFields, types, map_map, map_map]
  exact leafMarks_fields separator [] root fields

end RootedFields

/-- **Run lemma.** Of the columns that an unraveling leaves behind, a frame has those whose field at
the root is there. -/
theorem Unravels.columns_of_run {names : List String} {fields : Fields} {steps : List Step}
    {out : List String} (h : Unravels names fields steps out) (separator : String)
    (present : List String) : ∀ {done : List (String × String)} {pending : RootedFields}
      {frame flat : Frame}, done.map Prod.fst = names → pending.map Prod.fst = fields →
      (names ++ fields.map Prod.fst).Nodup →
      frame.columns = presentColumns present (done ++ pending.columns) →
      steps.foldlM (Plan.runStep Frame.engine) frame = .ok flat →
        ∃ left : List (String × String), left.map Prod.fst = out ∧
          left.map Prod.snd = done.map Prod.snd ++ leafMarks separator pending.types ∧
          flat.columns = presentColumns present left := by
  induction h with
  | nil names =>
    intro done pending frame flat hdone hpending _ hcolumns hrun
    obtain rfl := map_eq_nil_iff.mp hpending
    obtain rfl := Except.ok.inj hrun
    refine ⟨done, hdone, (append_nil _).symm, ?_⟩
    rw [hcolumns]
    exact congrArg _ (append_nil done)
  | @scalar names column _ _ _ _ _ ih =>
    intro done pending frame flat hdone hpending hdistinct hcolumns hrun
    obtain ⟨root, pending, rfl, rfl⟩ := RootedFields.exists_eq_cons hpending
    rw [map_cons, append_cons] at hdistinct
    have hmore : (done ++ [(column, root)]).map Prod.fst = names ++ [column] := by
      rw [map_append, hdone]
      rfl
    rw [RootedFields.columns, map_cons, append_cons] at hcolumns
    obtain ⟨left, hout, hroots, hflat⟩ := ih hmore rfl hdistinct hcolumns hrun
    refine ⟨left, hout, ?_, hflat⟩
    rw [hroots, map_append, append_assoc]
    rfl
  | @list names column element _ _ _ _ ih =>
    intro done pending frame flat hdone hpending hdistinct hcolumns hrun
    obtain ⟨root, pending, rfl, rfl⟩ := RootedFields.exists_eq_cons hpending
    rw [foldlM_cons] at hrun
    obtain ⟨after, hstep, hrun⟩ := bind_eq_ok_iff.mp hrun
    have hafter := (Plan.columns_of_runStep hstep).1.trans hcolumns
    have hitems : (((column, element), root) :: pending).map Prod.fst =
        (column, element) :: pending.map Prod.fst := rfl
    obtain ⟨left, hout, hroots, hflat⟩ := ih hdone hitems hdistinct hafter hrun
    refine ⟨left, hout, hroots.trans ?_, hflat⟩
    exact congrArg _ (leafMarks_list separator element root _).symm
  | @struct names column lead fields others _ _ distinct _ ih =>
    intro done pending frame flat hdone hpending hdistinct hcolumns hrun
    obtain ⟨root, pending, rfl, rfl⟩ := RootedFields.exists_eq_cons hpending
    rw [foldlM_cons] at hrun
    obtain ⟨after, hstep, hrun⟩ := bind_eq_ok_iff.mp hrun
    have hcolumn :
        ((done ++ (column, root) :: RootedFields.columns pending).map Prod.fst).Nodup := by
      rw [map_append, map_cons, RootedFields.map_fst_columns, hdone]
      exact hdistinct
    -- the fields take the place of the struct, or they are as absent as it is
    have hafter : after.columns = presentColumns present
        (done ++ RootedFields.columns (RootedFields.inside lead fields root ++ pending)) := by
      rw [(Plan.columns_of_runStep hstep).1, hcolumns, RootedFields.columns_append,
        RootedFields.columns_inside, ← append_assoc]
      exact spread_presentColumns hcolumn _
    have hinside : (RootedFields.inside lead fields root ++ pending).map Prod.fst =
        leadFields lead fields ++ pending.map Prod.fst := by
      rw [map_append, RootedFields.map_fst_inside]
    have hnew : (names ++ (leadFields lead fields ++ pending.map Prod.fst).map Prod.fst).Nodup := by
      rw [map_append, map_fst_leadFields, ← append_assoc]
      exact distinct
    obtain ⟨left, hout, hroots, hflat⟩ := ih hdone hinside hnew hafter hrun
    refine ⟨left, hout, ?_, hflat⟩
    rw [hroots, RootedFields.types_append, leafMarks_append, RootedFields.leafMarks_inside]
    rfl

/-! ### Adding and renaming -/

namespace Plan

variable {schema : Schema} {plan : Plan} {flat result : Frame}

/-- What a plan does once its steps have run, as a list of operations. -/
theorem finish_eq_performAll (plan : Plan) (flat : Frame) :
    plan.finish Frame.engine flat = flat.performAll
      ((plan.missingColumns flat.columns).map (fun column => .addNulls column.1 column.2) ++
        [.rename plan.rename, .select plan.select]) := by
  rw [Frame.performAll, foldlM_append, foldlM_map]
  simp only [foldlM_cons, foldlM_nil, bind_pure]
  rfl

/-- The datatypes of the missing leaves are remembered, under the new names of their columns. -/
theorem datatypes_of_finish (hflat : flat.datatypes = [])
    (hrun : plan.finish Frame.engine flat = .ok result) :
    result.datatypes = Assoc.ofList ((Assoc.ofList (plan.missingColumns flat.columns)).map
      fun entry => (renamed plan.rename entry.1, entry.2)) := by
  rw [finish_eq_performAll] at hrun
  rw [Frame.datatypes_of_performAll hrun, foldl_append, foldl_map, hflat]
  rfl

namespace Executable

/-- The new names of the leaf columns are distinct. -/
theorem inj_on_leaves (h : plan.Executable schema) (hcolumns : schema.columns.Nodup)
    {column column' : String} (hmem : column ∈ plan.leaves.map Leaf.column)
    (hmem' : column' ∈ plan.leaves.map Leaf.column)
    (heq : renamed plan.rename column = renamed plan.rename column') : column = column' :=
  inj_on_of_nodup_map (h.renames.symm ▸ hcolumns) hmem hmem' heq

theorem nodup_missingColumns (h : plan.Executable schema) (present : List String) :
    (Assoc.keys (plan.missingColumns present)).Nodup := by
  rw [Assoc.keys, map_fst_missingColumns]
  exact h.distinct.sublist filter_sublist

theorem lookup_missingColumns (h : plan.Executable schema) {leaf : Leaf}
    (hleaf : leaf ∈ plan.leaves) (present : List String) :
    (plan.missingColumns present).lookup leaf.column =
      if leaf.column ∈ present then none else some leaf.datatype := by
  split
  · rename_i hmem
    refine Assoc.lookup_eq_none_iff.mpr fun hkey => ?_
    rw [Assoc.keys, map_fst_missingColumns] at hkey
    exact of_decide_eq_true (mem_filter.mp hkey).2 hmem
  · rename_i hmissing
    refine Assoc.lookup_eq_some_of_mem (h.nodup_missingColumns present) ?_
    exact mem_map_of_mem (mem_filter.mpr ⟨hleaf, decide_eq_true hmissing⟩)

/-- **What is remembered.** The column of a leaf has its datatype if the leaf was missing, and else
none. Other columns have none. -/
theorem datatypeOf?_finish (h : plan.Executable schema) (hcolumns : schema.columns.Nodup)
    (hflat : flat.datatypes = []) (hrun : plan.finish Frame.engine flat = .ok result) :
    (∀ leaf ∈ plan.leaves, result.datatypeOf? (renamed plan.rename leaf.column) =
      if leaf.column ∈ flat.columns then none else some leaf.datatype) ∧
    ∀ name ∉ schema.columns, result.datatypeOf? name = none := by
  have hmissing : ∀ key ∈ Assoc.keys (Assoc.ofList (plan.missingColumns flat.columns)),
      key ∈ plan.leaves.map Leaf.column := by
    intro key hkey
    rw [Assoc.mem_keys_ofList_iff, Assoc.keys, map_fst_missingColumns] at hkey
    exact (mem_filter.mp hkey).1
  constructor
  · intro leaf hleaf
    rw [Frame.datatypeOf?, datatypes_of_finish hflat hrun,
      Assoc.lookup_ofList_map (Assoc.nodup_keys_ofList _),
      Assoc.lookup_ofList_of_nodup (h.nodup_missingColumns _), h.lookup_missingColumns hleaf]
    exact fun key hkey => h.inj_on_leaves hcolumns (hmissing key hkey) (mem_map_of_mem hleaf)
  · intro name hname
    rw [Frame.datatypeOf?, datatypes_of_finish hflat hrun, Assoc.lookup_eq_none_iff,
      Assoc.mem_keys_ofList_iff, Assoc.keys_rename, mem_map]
    rintro ⟨key, hkey, rfl⟩
    refine hname ?_
    rw [← h.renames]
    exact mem_map_of_mem (hmissing key hkey)

/-- **What is null.** The column of a missing leaf is null in every row. -/
theorem cell_finish (h : plan.Executable schema) (hcolumns : schema.columns.Nodup)
    (hwithin : flat.Within (plan.leaves.map Leaf.column))
    (hrun : plan.finish Frame.engine flat = .ok result) {leaf : Leaf} (hleaf : leaf ∈ plan.leaves)
    (hmissing : leaf.column ∉ flat.columns) {row : Row} (hrow : row ∈ result.rows) :
    row.cell (renamed plan.rename leaf.column) = .null := by
  obtain ⟨_, hfinish, -, -, hrows⟩ := h.finish_eq_ok hcolumns hwithin
  obtain rfl := Except.ok.inj (hfinish.symm.trans hrun)
  rw [hrows] at hrow
  obtain ⟨before, hbefore, rfl⟩ := mem_map.mp hrow
  have hnull : before.cell leaf.column = .null :=
    Row.cell_of_notMem (hwithin.rectangular before hbefore ▸ hmissing)
  rw [← hnull, ← h.renames, zip_map']
  refine Row.cell_of_mem ?_ (mem_map.mpr ⟨leaf.column, mem_map_of_mem hleaf, rfl⟩)
  rw [Assoc.keys, map_map]
  exact h.renames.symm ▸ hcolumns

end Executable

end Plan

/-! ### Unpacking -/

/-- In a schema the fields at the root are pending, each with itself. -/
theorem Schema.leafRoots_eq (schema : Schema) :
    schema.leafRoots = leafMarks schema.separator
      (RootedFields.types (schema.fields.map fun field => (field, field.1))) := by
  rw [RootedFields.types, map_map, leafMarks, flatMap_map]
  exact flatMap_congr fun field _ => map_const_leaves schema.separator [field.1] [] field.2 field.1

namespace Plan

variable {schema : Schema} {plan : Plan}

/-- **What is missing.** Once the steps have run on the columns of fields that are there, a leaf has
a column if the field at the root that it is a part of is there. -/
theorem Executable.leaves_of_run (h : plan.Executable schema)
    (hnames : (schema.fields.map Prod.fst).Nodup) {present : List String} {selected flat : Frame}
    (hselected : selected.columns = (schema.fields.map Prod.fst).filter (· ∈ present))
    (hrun : plan.steps.foldlM (runStep Frame.engine) selected = .ok flat) :
    Forall₂ (fun root leaf => leaf.column ∈ flat.columns ↔ root ∈ present) schema.leafRoots
      plan.leaves := by
  have hstart : selected.columns = presentColumns present
      ([] ++ RootedFields.columns (schema.fields.map fun field => (field, field.1))) := by
    rw [hselected, presentColumns, RootedFields.columns, nil_append, map_map, filter_map,
      filter_map, map_map]
    rfl
  have hfields : (schema.fields.map fun field => (field, field.1)).map Prod.fst =
      schema.fields := by
    rw [map_map]
    exact map_id _
  obtain ⟨left, hleaves, hroots, hflat⟩ := h.unravels.columns_of_run schema.separator present
    map_nil hfields hnames hstart hrun
  rw [map_nil, nil_append, ← Schema.leafRoots_eq] at hroots
  have hdistinct : (left.map Prod.fst).Nodup := hleaves ▸ h.distinct
  rw [← hroots, forall₂_map_left_iff, forall₂_iff_zip]
  refine ⟨by simpa using congrArg length hleaves, fun {column leaf} hmem => ?_⟩
  have hpairs : Forall₂ Eq (left.map Prod.fst) (plan.leaves.map Leaf.column) :=
    forall₂_eq_eq_eq.symm ▸ hleaves
  have hcolumn : column.1 = leaf.column :=
    (forall₂_iff_zip.mp (forall₂_map_left_iff.mp (forall₂_map_right_iff.mp hpairs))).2 hmem
  rw [hflat, ← hcolumn]
  exact mem_presentColumns_iff hdistinct (of_mem_zip hmem).1

/-- The leaves of a plan have the output columns and the datatypes of the schema. -/
theorem Executable.zip_columns (h : plan.Executable schema) (hcoherent : schema.Coherent) :
    schema.columns.zip schema.datatypes =
      plan.leaves.map fun leaf => (renamed plan.rename leaf.column, leaf.datatype) := by
  have hdatatypes : schema.datatypes = plan.leaves.map Leaf.datatype := by
    rw [hcoherent.datatypes, ← h.leaves, map_map]
    rfl
  rw [← h.renames, hdatatypes, map_map, zip_map']
  rfl

/-- **Up to the end.** A run of a plan comes to a frame that remembers nothing, and that has the
columns of the leaves whose fields at the root are there. -/
theorem exists_flat_of_execute {strategy : Strategy} (hcoherent : schema.Coherent)
    (hplan : Plan.ofSchema schema strategy = .ok plan)
    (hroot : ∀ fields, ("", Tree.struct fields) ∉ schema.fields) {records : List Value}
    {result : Frame} (hrun : plan.execute Frame.engine (.ofRecords records) = .ok result) :
    ∃ flat : Frame, plan.finish Frame.engine flat = .ok result ∧ flat.datatypes = [] ∧
      flat.Within (plan.leaves.map Leaf.column) ∧
      Forall₂ (fun root leaf => leaf.column ∈ flat.columns ↔
        root ∈ (Frame.ofRecords records).columns) schema.leafRoots plan.leaves := by
  have h : plan.Executable schema := (ofSchema_ends hcoherent strategy).of_eq_ok hplan
  have harrival : ∀ present, arrival present schema.fields = schema.fields :=
    arrival_eq_self (not_exists.mpr hroot)
  have hnames : (schema.fields.map Prod.fst).Nodup := hcoherent.names_distinct.1
  rw [execute_eq] at hrun
  obtain ⟨selected, hselect, hrun⟩ := bind_eq_ok_iff.mp hrun
  obtain ⟨flat, hsteps, hfinish⟩ := bind_eq_ok_iff.mp hrun
  obtain ⟨_, hselect', hwithin⟩ := plan.select_sourceColumns (.ofRecords records)
  have hperform : (Frame.ofRecords records).perform (.select (plan.sourceColumns
      (Frame.ofRecords records).columns)) = .ok selected := hselect
  obtain ⟨-, hselected⟩ := Frame.perform_eq_ok_iff.mp hperform
  obtain rfl := Except.ok.inj (hperform.symm.trans hselect')
  have hcolumns := congrArg Frame.columns hselected
  have hdatatypes := congrArg Frame.datatypes hselected
  refine ⟨flat, hfinish, (datatypes_of_runSteps hsteps).trans hdatatypes,
    (run_ends hcoherent hplan hwithin).of_eq_ok hsteps, h.leaves_of_run hnames ?_ hsteps⟩
  rw [hcolumns]
  exact (h.sourceColumns_eq ((harrival _).symm ▸ hnames)).trans (by rw [harrival])

end Plan

/-- **Missing leaves.** Unpacking by a schema without anonymous structs at the root gives its output
columns in order. Where a leaf is part of a field at the root that no record has, its column is null
in every row and has the datatype of the schema. The columns of all other leaves have no datatype,
and neither does any name that is no column. -/
theorem unpack_missing_leaves {source : Text} {options : UnpackOptions} {schema : Schema}
    (hschema : compile source options.toCompileOptions = .ok schema)
    (hroot : ∀ fields, ("", Tree.struct fields) ∉ schema.fields) {records : List Value}
    {result : Frame} (hrun : unpack source (.ofRecords records) options = .ok result) :
    result.columns = schema.columns ∧ schema.datatypes.length = schema.columns.length ∧
      Forall₂ (fun root leaf =>
          ((∀ record ∈ records, root ∉ Assoc.keys record.entries) →
            result.datatypeOf? leaf.1 = some leaf.2 ∧
              ∀ row ∈ result.rows, row.cell leaf.1 = .null) ∧
          ((∃ record ∈ records, root ∈ Assoc.keys record.entries) →
            result.datatypeOf? leaf.1 = none))
        schema.leafRoots (schema.columns.zip schema.datatypes) ∧
      ∀ name ∉ schema.columns, result.datatypeOf? name = none := by
  have hcoherent : schema.Coherent := coherent_of_compile hschema
  obtain ⟨_, hcompile, hrun⟩ := bind_eq_ok_iff.mp hrun
  obtain rfl := Except.ok.inj (hschema.symm.trans (mapError_eq_ok_iff.mp hcompile))
  obtain ⟨plan, hplan, hrun⟩ := bind_eq_ok_iff.mp hrun
  have hplan := mapError_eq_ok_iff.mp hplan
  have h : plan.Executable schema := (Plan.ofSchema_ends hcoherent options.strategy).of_eq_ok hplan
  obtain ⟨flat, hfinish, hempty, hwithin, hleaves⟩ :=
    Plan.exists_flat_of_execute hcoherent hplan hroot (mapError_eq_ok_iff.mp hrun)
  obtain ⟨hdatatypes, hothers⟩ := h.datatypeOf?_finish hcoherent.columns_nodup hempty hfinish
  obtain ⟨_, hresult, -, hcolumns, -⟩ := h.finish_eq_ok hcoherent.columns_nodup hwithin
  obtain rfl := Except.ok.inj (hresult.symm.trans hfinish)
  refine ⟨hcolumns, ?_, ?_, hothers⟩
  · rw [← h.renames, hcoherent.datatypes, ← h.leaves]
    simp only [length_map]
  rw [h.zip_columns hcoherent, forall₂_map_right_iff, forall₂_iff_zip]
  obtain ⟨hlength, hpresent⟩ := forall₂_iff_zip.mp hleaves
  refine ⟨hlength, fun {root leaf} hmem => ?_⟩
  have hleaf : leaf ∈ plan.leaves := (of_mem_zip hmem).2
  have hiff := (hpresent hmem).trans Frame.mem_columns_ofRecords_iff
  rw [hdatatypes leaf hleaf]
  constructor
  · intro habsent
    have hmissing : leaf.column ∉ flat.columns := fun hin => by
      obtain ⟨record, hrecord, hkey⟩ := hiff.mp hin
      exact habsent record hrecord hkey
    exact ⟨if_neg hmissing, fun row hrow =>
      h.cell_finish hcoherent.columns_nodup hwithin hfinish hleaf hmissing hrow⟩
  · exact fun hexists => if_pos (hiff.mpr hexists)

/-- A struct that no record has, with fields that swap their names, in front of a list that all
records have. -/
theorem unpack_missing_leaves_swap :
    let records : List Value :=
      [.object [("y", .array [.string "p", .string "q"])], .object [("y", .null)]]
    let options : UnpackOptions := { strategy := .deferred }
    ∃ result, unpack (Text.ofString "x: Struct(a=b: Int8, b=a: Utf8), y: List(Int8)")
        (.ofRecords records) options = .ok result ∧
      result.columns = ["b", "a", "y"] ∧ result.datatypeOf? "b" = some .int8 ∧
      result.datatypeOf? "a" = some .utf8 ∧ result.datatypeOf? "y" = none ∧
      (∀ row ∈ result.rows, row.cell "b" = .null) ∧ result.datatypeOf? "x" = none := by
  intro records options
  have hcompiled : (compile (Text.ofString "x: Struct(a=b: Int8, b=a: Utf8), y: List(Int8)")
      options.toCompileOptions).toOption.map (fun schema =>
        (schema.fields.map Prod.fst, schema.leafRoots, schema.columns, schema.datatypes)) =
      some (["x", "y"], ["x", "x", "y"], ["b", "a", "y"], [.int8, .utf8, .int8]) := by
    decide +kernel
  obtain ⟨schema, hschema, hparts⟩ := toOption_map_eq_some_iff.mp hcompiled
  simp only [Prod.mk.injEq] at hparts
  obtain ⟨hnames, hroots, houtput, hdatatypes⟩ := hparts
  have hroot : ∀ fields, ("", Tree.struct fields) ∉ schema.fields := by
    intro fields hmem
    have hname : "" ∈ schema.fields.map Prod.fst := mem_map_of_mem hmem
    simp [hnames] at hname
  have hsome : (unpack (Text.ofString "x: Struct(a=b: Int8, b=a: Utf8), y: List(Int8)")
      (.ofRecords records) options).toOption.isSome := by decide +kernel
  obtain ⟨result, hresult⟩ := Option.isSome_iff_exists.mp hsome
  have hrun := toOption_eq_some_iff.mp hresult
  obtain ⟨hcolumns, -, hleaves, hothers⟩ := unpack_missing_leaves hschema hroot hrun
  rw [hroots, houtput, hdatatypes] at hleaves
  rw [houtput] at hcolumns hothers
  simp only [zip_cons_cons, zip_nil_left, forall₂_cons] at hleaves
  obtain ⟨⟨hb, -⟩, ⟨ha, -⟩, ⟨-, hy⟩, -⟩ := hleaves
  have hnull := hb (by decide +kernel)
  exact ⟨result, hrun, hcolumns, hnull.1, (ha (by decide +kernel)).1, hy (by decide +kernel),
    hnull.2, hothers "x" (by decide)⟩

end NestedRecords
