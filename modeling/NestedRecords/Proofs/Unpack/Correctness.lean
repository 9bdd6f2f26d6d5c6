import NestedRecords.Proofs.Frame.Records
import NestedRecords.Proofs.Frame.Within
import NestedRecords.Proofs.Plan.Clearance
import NestedRecords.Proofs.Plan.Executable
import NestedRecords.Proofs.Unpack.Simulation
import NestedRecords.Unpack

/-!
# Unpacking is flattening

Running an executable plan on the frame of some records gives the rows of the records as
`Tree.fieldRows` has them. The run of the steps is `Frame.continues_run`; what is left are its two
ends. In front, the columns that the plan begins with are selected, and a record keeps the members
that the schema has fields for. Behind, the leaf columns that never came up are added, all leaf
columns are renamed at once, and the output columns are put in order.

An anonymous struct at the root has no column of its own when the records are objects: its fields
are taken from the columns of the record instead. The plan knows nothing of that, and so the run is
about the fields as they arrive and any steps that unravel these and agree with those of the plan
(`Plan.Executable.execute_ends_of_agree`). Schemas without such a struct have the steps of the plan
themselves, and for them unpacking is flattening without a condition.
-/

namespace NestedRecords

open NestedRecords.Tree

/-! ### The columns a plan begins with -/

namespace Plan

variable {schema : Schema} {plan : Plan}

/-- Fields that arrive in columns of their own are read from these columns. -/
theorem Executable.sourceColumns_eq (h : plan.Executable schema) {present : List String}
    (hnames : ((arrival present schema.fields).map Prod.fst).Nodup) :
    plan.sourceColumns present =
      ((arrival present schema.fields).map Prod.fst).filter (· ∈ present) := by
  rw [sourceColumns, h.fields, fieldSources_eq]
  exact eraseDups_eq_self (hnames.sublist List.filter_sublist)

end Plan

namespace Frame

variable {fields : Fields} {records : List Value}

/-- The columns of some records that are among some fields. -/
private def sourceNames (fields : Fields) (records : List Value) : List String :=
  (fields.map Prod.fst).filter (· ∈ (ofRecords records).columns)

/-- Selecting the columns of some fields keeps the members of these names in each record. -/
private theorem cell_source {record : Value} (h : record ∈ records) {name : String}
    (hname : name ∈ fields.map Prod.fst) :
    Row.cell ((sourceNames fields records).map fun column =>
      (column, Row.cell record.entries column)) name = Row.cell record.entries name := by
  by_cases hmem : name ∈ sourceNames fields records
  · exact Row.cell_map hmem _
  -- a field that no record has is no column, and null in every record
  · have habsent : name ∉ Assoc.keys record.entries := fun hin =>
      hmem (List.mem_filter.mpr ⟨hname, decide_eq_true (mem_columns_ofRecords h hin)⟩)
    rw [Row.cell_of_notMem habsent]
    exact Row.cell_of_notMem (by rwa [Row.keys_map])

/-- Where no column is done yet, a row stands for what its pending columns flatten to. -/
private theorem flattened_nil (fields : Fields) (row : Row) :
    row.flattened [] fields = fieldRows fields row :=
  List.map_id _

/-- **The start.** The columns that the records have of some fields can be selected, and the frame
stands for the rows of the records. -/
private theorem select_sources (fields : Fields) (records : List Value) :
    ∃ selected, (ofRecords records).select (sourceNames fields records) = .ok selected ∧
      selected.columns ⊆ sourceNames fields records ∧ selected.Shows [] fields ∧
      selected.rows.flatMap (Row.flattened [] fields) =
        records.flatMap (fun record => fieldRows fields record.entries) ∧
      (selected.Fits fields ↔ ∀ record ∈ records, FieldsFit fields record.entries) := by
  have hpresent : ∀ column ∈ sourceNames fields records, column ∈ (ofRecords records).columns :=
    fun column hmem => of_decide_eq_true (List.mem_filter.mp hmem).2
  refine ⟨_, select_eq_ok hpresent, fun _ hname => hname, ⟨List.filter_sublist, ?_⟩, ?_, ?_⟩
  · intro row hrow
    obtain ⟨entries, -, rfl⟩ := List.mem_map.mp hrow
    exact Row.keys_map _ _
  · have hrows : ∀ record ∈ records, Row.flattened [] fields
        ((sourceNames fields records).map fun column =>
          (column, Row.cell record.entries column)) = fieldRows fields record.entries := by
      intro record hrecord
      rw [flattened_nil]
      exact fieldRows_congr fun name hname => cell_source hrecord hname
    rw [ofRecords, List.map_map, List.flatMap_map]
    exact congrArg List.flatten (List.map_congr_left hrows)
  · have hfits : ∀ record ∈ records, (FieldsFit fields
        ((sourceNames fields records).map fun column =>
          (column, Row.cell record.entries column)) ↔ FieldsFit fields record.entries) :=
      fun record hrecord => fieldsFit_congr fun name hname => cell_source hrecord hname
    rw [Fits, ofRecords, List.map_map, List.forall_mem_map]
    exact forall_congr' fun record => forall_congr' fun hmem => hfits record hmem

end Frame

/-! ### The columns a plan ends with -/

namespace Plan

variable {m : Type → Type} [Monad m] {F : Type}

/-- What a plan does once its steps have run: missing leaves, new names and the output columns. -/
def finish (plan : Plan) (engine : Engine m F) (flat : F) : m F := do
  let missing := plan.missingColumns (engine.columns flat)
  let complete ← missing.foldlM
    (fun frame column => engine.perform (.addNulls column.1 column.2) frame) flat
  let renamed ← engine.perform (.rename plan.rename) complete
  engine.perform (.select plan.select) renamed

theorem execute_eq (plan : Plan) (engine : Engine m F) (frame : F) :
    plan.execute engine frame = (do
      let selected ← engine.perform (.select (plan.sourceColumns (engine.columns frame))) frame
      let flat ← plan.steps.foldlM (runStep engine) selected
      plan.finish engine flat) := rfl

variable {schema : Schema} {plan : Plan}

/-- The leaf columns that are not there are those that are missing. -/
theorem map_fst_missingColumns (plan : Plan) (present : List String) :
    (plan.missingColumns present).map Prod.fst =
      (plan.leaves.map Leaf.column).filter (· ∉ present) := by
  rw [missingColumns, List.map_map, List.filter_map]
  rfl

/-- The columns that are there and those that are missing are the leaf columns, in some order. -/
theorem Executable.perm_columns (h : plan.Executable schema) {flat : Frame}
    (hwithin : flat.Within (plan.leaves.map Leaf.column)) :
    (flat.columns ++ (plan.missingColumns flat.columns).map Prod.fst).Perm
      (plan.leaves.map Leaf.column) := by
  rw [map_fst_missingColumns]
  have hdistinct : (flat.columns ++
      (plan.leaves.map Leaf.column).filter (· ∉ flat.columns)).Nodup := by
    refine List.nodup_append.mpr ⟨hwithin.distinct, h.distinct.sublist List.filter_sublist, ?_⟩
    rintro column hmem _ hfilter rfl
    exact of_decide_eq_true (List.mem_filter.mp hfilter).2 hmem
  refine (List.perm_ext_iff_of_nodup hdistinct h.distinct).mpr fun column => ?_
  rw [List.mem_append, List.mem_filter]
  constructor
  · rintro (hmem | ⟨hmem, -⟩)
    · exact hwithin.subset hmem
    · exact hmem
  · intro hmem
    by_cases hin : column ∈ flat.columns
    · exact .inl hin
    · exact .inr ⟨hmem, decide_eq_true hin⟩

/-- A row that has a cell for each leaf column, read under the new names in the order of the output
columns. -/
theorem Executable.cells_renamed (h : plan.Executable schema) (hcolumns : schema.columns.Nodup)
    {row : Row} (hkeys : (Assoc.keys row).Perm (plan.leaves.map Leaf.column)) :
    (schema.columns.map fun column =>
        (column, Row.cell (row.map fun cell => (renamed plan.rename cell.1, cell.2)) column)) =
      schema.columns.zip ((plan.leaves.map Leaf.column).map row.cell) := by
  have hrenamed : ((Assoc.keys row).map (renamed plan.rename)).Perm schema.columns :=
    h.renames ▸ hkeys.map _
  rw [← h.renames, List.zip_map', List.map_map]
  refine List.map_congr_left fun column hmem =>
    congrArg (Prod.mk (renamed plan.rename column)) ?_
  exact Row.cell_rename (hrenamed.nodup_iff.mpr hcolumns) (hkeys.mem_iff.mpr hmem)

/-- **The end.** Where the columns of a frame are among the leaf columns, the output columns hold
their values. -/
theorem Executable.finish_eq_ok (h : plan.Executable schema) (hcolumns : schema.columns.Nodup)
    {flat : Frame} (hwithin : flat.Within (plan.leaves.map Leaf.column)) :
    ∃ result, plan.finish Frame.engine flat = .ok result ∧ result.Rectangular ∧
      result.columns = schema.columns ∧ result.rows = flat.rows.map fun row =>
        schema.columns.zip ((plan.leaves.map Leaf.column).map row.cell) := by
  have hperm := h.perm_columns hwithin
  obtain ⟨complete, hadd, hrectangular, hcomplete, hcells⟩ :=
    Frame.addNulls_eq_ok hwithin.rectangular (hperm.nodup_iff.mpr h.distinct)
  -- the missing columns stand behind the others, which no longer matters once they are selected
  rw [← hcomplete] at hperm
  have hrenamed : (complete.columns.map (renamed plan.rename)).Perm schema.columns :=
    h.renames ▸ hperm.map _
  have hrun : plan.finish Frame.engine flat =
      complete.rename plan.rename >>= fun frame => frame.select plan.select := by
    change ((plan.missingColumns flat.columns).foldlM
      (fun frame column => frame.addNulls column.1 column.2) flat >>= fun frame =>
        frame.rename plan.rename >>= fun frame => frame.select plan.select) = _
    rw [hadd, ok_bind]
  rw [Frame.rename_eq_ok (hrenamed.nodup_iff.mpr hcolumns), ok_bind, h.select,
    Frame.select_eq_ok fun column hmem => hrenamed.mem_iff.mpr hmem] at hrun
  refine ⟨_, hrun, ?_, rfl, ?_⟩
  · intro _ hmem
    obtain ⟨row, -, rfl⟩ := List.mem_map.mp hmem
    exact Row.keys_map _ _
  -- the columns that were added changed no cell
  have hback : flat.rows.map (fun row =>
        schema.columns.zip ((plan.leaves.map Leaf.column).map row.cell)) =
      complete.rows.map fun row =>
        schema.columns.zip ((plan.leaves.map Leaf.column).map row.cell) := by
    have hmapped := congrArg (List.map fun cell : String → Value =>
      schema.columns.zip ((plan.leaves.map Leaf.column).map cell)) hcells
    rw [List.map_map, List.map_map] at hmapped
    exact hmapped.symm
  rw [hback, List.map_map]
  refine List.map_congr_left fun row hrow => h.cells_renamed hcolumns ?_
  rw [hrectangular row hrow]
  exact hperm

/-- **Running a plan on records.** An executable plan, run on the frame of some records, gives the
rows of the records under the output columns, or fails on a value that does not fit. It is enough
that some steps which agree with those of the plan unravel the fields as they arrive. -/
theorem Executable.execute_ends_of_agree (h : plan.Executable schema)
    (hcolumns : schema.columns.Nodup) {records : List Value} {fields : Fields} {live : List Step}
    (harrival : arrival (Frame.ofRecords records).columns schema.fields = fields)
    (hnames : (fields.map Prod.fst).Nodup)
    (hlive : Unravels [] fields live (plan.leaves.map Leaf.column))
    (hagree : Agree ((fields.map Prod.fst).filter (· ∈ (Frame.ofRecords records).columns))
      plan.steps live) :
    Ends (fun error => error.IsMisfit ∧ ¬∀ record ∈ records, FieldsFit fields record.entries)
      (fun result => (∀ record ∈ records, FieldsFit fields record.entries) ∧
        result.records =
          (records.flatMap fun record => fieldRows fields record.entries).map
            fun values => MemberOrder.arrangeBy Prod.fst (schema.columns.zip values))
      (plan.execute Frame.engine (.ofRecords records)) := by
  obtain ⟨selected, hselect, hkept, hshows, hrows, hfits⟩ := Frame.select_sources fields records
  have hstart : Frame.engine.perform
      (.select (plan.sourceColumns (Frame.engine.columns (.ofRecords records))))
      (.ofRecords records) = .ok selected := by
    rw [← harrival] at hnames hselect
    exact (congrArg (Frame.select _) (h.sourceColumns_eq hnames)).trans hselect
  rw [execute_eq, hstart, ok_bind, hagree selected hkept]
  refine Ends.bind ((Frame.continues_run hlive hshows hnames).mono ?_ fun _ hflat => hflat) ?_
  · rintro error ⟨hmisfit, hunfit⟩
    exact ⟨hmisfit, fun hall => hunfit (hfits.mpr hall)⟩
  · intro flat hflat
    have hsub : flat.columns.Sublist (plan.leaves.map Leaf.column) := by
      simpa using hflat.shows.columns
    obtain ⟨result, hfinish, hrectangular, hresultColumns, hresult⟩ := h.finish_eq_ok hcolumns
      ⟨h.distinct.sublist hsub, hsub.subset, hflat.shows.rectangular⟩
    -- with all columns done, a row stands for itself and there is nothing left to fit
    have hall : ∀ record ∈ records, FieldsFit fields record.entries :=
      hfits.mp (hflat.fits.mp fun _ _ => nofun)
    have hdone : ∀ row : Row, row.flattened (plan.leaves.map Leaf.column) [] =
        [(plan.leaves.map Leaf.column).map row.cell] := by
      intro row
      rw [Row.flattened, fieldRows, List.map_singleton, List.append_nil]
    have hflattened : flat.rows.map (fun row => (plan.leaves.map Leaf.column).map row.cell) =
        records.flatMap fun record => fieldRows fields record.entries := by
      rw [← hrows, ← hflat.flattened, List.map_eq_flatMap]
      exact congrArg flat.rows.flatMap (funext fun row => (hdone row).symm)
    rw [hfinish]
    refine .ok ⟨hall, ?_⟩
    rw [Frame.records_eq hrectangular (hresultColumns ▸ hcolumns), hresult, ← hflattened,
      List.map_map, List.map_map]
    rfl

/-- Without anonymous structs at the root, the steps of the plan themselves unravel the fields. -/
theorem Executable.execute_ends (h : plan.Executable schema) (hcoherent : schema.Coherent)
    (hroot : ∀ fields, ("", Tree.struct fields) ∉ schema.fields) (records : List Value) :
    Ends (fun error => error.IsMisfit ∧
        ¬∀ record ∈ records, FieldsFit schema.fields record.entries)
      (fun result => (∀ record ∈ records, FieldsFit schema.fields record.entries) ∧
        result.records =
          (records.flatMap fun record => fieldRows schema.fields record.entries).map
            fun values => MemberOrder.arrangeBy Prod.fst (schema.columns.zip values))
      (plan.execute Frame.engine (.ofRecords records)) :=
  h.execute_ends_of_agree hcoherent.columns_nodup (arrival_eq_self (not_exists.mpr hroot) _)
    hcoherent.names_distinct.1 h.unravels (Agree.refl _ _)

end Plan

/-! ### Unpacking -/

/-- Once there is a plan, unpacking records is running it. -/
theorem unpackRecords_eq {source : Text} {options : UnpackOptions} {schema : Schema} {plan : Plan}
    (hschema : compile source options.toCompileOptions = .ok schema)
    (hplan : Plan.ofSchema schema options.strategy = .ok plan) (records : List Value) :
    unpackRecords source records options =
      Frame.records <$> (plan.execute Frame.engine (.ofRecords records)).mapError .frame := by
  rw [unpackRecords, unpack, hschema]
  change Frame.records <$> ((Plan.ofSchema schema options.strategy).mapError UnpackError.plan >>=
    fun plan => (plan.execute Frame.engine (.ofRecords records)).mapError .frame) = _
  rw [hplan]
  rfl

/-- **Unpacking is flattening.** Where a text is a schema without anonymous structs at the root and
has a plan, unpacking records by it fails on a value of another shape exactly when one of the
records does not fit. When all of them fit, the result are the rows of the records, one record
after the other, and in every row the value of each leaf stands under the column that its path is
bound to. -/
theorem unpackRecords_flattens (source : Text) (options : UnpackOptions) {schema : Schema}
    {plan : Plan} (hschema : compile source options.toCompileOptions = .ok schema)
    (hplan : Plan.ofSchema schema options.strategy = .ok plan)
    (hroot : ∀ fields, ("", Tree.struct fields) ∉ schema.fields) (records : List Value) :
    ((∃ error : FrameError, error.IsMisfit ∧
        unpackRecords source records options = .error (.frame error)) ↔
      ∃ record ∈ records, ¬FieldsFit schema.fields record.entries) ∧
    ((∀ record ∈ records, FieldsFit schema.fields record.entries) →
      unpackRecords source records options =
        .ok ((records.flatMap fun record => fieldRows schema.fields record.entries).map
          fun values => MemberOrder.arrangeBy Prod.fst (schema.leafColumns.zip values))) := by
  have hcoherent : schema.Coherent := coherent_of_compile hschema
  have hexecutable : plan.Executable schema :=
    (Plan.ofSchema_ends hcoherent options.strategy).of_eq_ok hplan
  have hends := hexecutable.execute_ends hcoherent hroot records
  rw [hcoherent.leafColumns_eq, unpackRecords_eq hschema hplan]
  cases hexecute : plan.execute Frame.engine (.ofRecords records) with
  | error error =>
    obtain ⟨hmisfit, hunfit⟩ := hends.of_eq_error hexecute
    refine ⟨⟨fun _ => ?_, fun _ => ⟨error, hmisfit, rfl⟩⟩, fun hall => absurd hall hunfit⟩
    simpa using hunfit
  | ok result =>
    obtain ⟨hall, hrecords⟩ := hends.of_eq_ok hexecute
    refine ⟨⟨?_, ?_⟩, fun _ => congrArg Except.ok hrecords⟩
    · rintro ⟨error, -, herror⟩
      contradiction
    · rintro ⟨record, hmem, hunfit⟩
      exact absurd (hall record hmem) hunfit

/-- A list in which one of the structs is null gives two rows, and a list that is none a failure. -/
theorem unpackRecords_flattens_tags :
    unpackRecords (Text.ofString "id: Utf8, tags: List(Struct(a=b: Utf8))")
        [.object [("id", .string "x"), ("tags", .array [.object [("a", .string "y")], .null])]] =
      .ok [[("id", .string "x"), ("b", .string "y")], [("id", .string "x"), ("b", .null)]] ∧
    ∃ error : FrameError, error.IsMisfit ∧
      unpackRecords (Text.ofString "id: Utf8, tags: List(Struct(a=b: Utf8))")
        [.object [("tags", .string "y")]] = .error (.frame error) := by
  have hschema : compile (Text.ofString "id: Utf8, tags: List(Struct(a=b: Utf8))") =
      .ok { fields := [("id", .scalar .utf8), ("tags", .list (.struct [("a", .scalar .utf8)]))]
            bindings := [("id", "id"), ("tags.a", "b")]
            columns := ["id", "b"]
            datatypes := [.utf8, .utf8]
            separator := "." } := toOption_eq_some_iff.mp (by decide +kernel)
  have hplan : Plan.ofSchema
      { fields := [("id", .scalar .utf8), ("tags", .list (.struct [("a", .scalar .utf8)]))]
        bindings := [("id", "id"), ("tags.a", "b")]
        columns := ["id", "b"]
        datatypes := [.utf8, .utf8]
        separator := "." } =
      .ok { strategy := .eager
            fields := [("id", .scalar .utf8), ("tags", .list (.struct [("a", .scalar .utf8)]))]
            steps := [.explode "tags", .unnest "tags" "tags." ["a"]]
            leaves := [⟨"id", "id", .utf8⟩, ⟨"tags.a", "tags.a", .utf8⟩]
            rename := [("tags.a", "b")]
            select := ["id", "b"] } := toOption_eq_some_iff.mp (by decide +kernel)
  have hunpack := unpackRecords_flattens _ {} hschema hplan (by simp)
  constructor
  · refine ((hunpack _).2 ?_).trans (congrArg Except.ok (by decide +kernel))
    refine List.forall_mem_singleton.mpr (fieldsFit_cons.mpr ⟨.scalar _ _, ?_⟩)
    refine fieldsFit_cons.mpr ⟨.array (List.forall_mem_cons.mpr ⟨?_, ?_⟩), nofun⟩
    · exact .object (List.forall_mem_singleton.mpr (.scalar _ _))
    · exact List.forall_mem_singleton.mpr (.null _)
  · refine (hunpack _).1.mpr ⟨_, List.mem_singleton_self _, fun hfits => ?_⟩
    have hlist := (fieldsFit_cons.mp (fieldsFit_cons.mp hfits).2).1
    exact not_fits_list rfl hlist

end NestedRecords
