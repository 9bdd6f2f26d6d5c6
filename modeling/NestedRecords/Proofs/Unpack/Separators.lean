import NestedRecords.Proofs.Plan.Rejoining
import NestedRecords.Proofs.Unpack.ColumnChecks

/-!
# Separators do not show

Under the columns that a schema declares, rows say nothing of the separator that the plan was made
with. They are the same under any two separators that delimit, and so is what goes wrong: one text
is refused for the same reason at the same place, one struct finds no names for its fields, one
value has another shape (`unpackRecords_separators`). The separator comes up in the wording of
errors only.

A separator that could stand in a name is another matter, since a path may then be read in two ways.
-/

namespace NestedRecords

open List NestedRecords.Tree

/-- Errors of one cause that differ in the separator alone, where they quote columns or paths. -/
inductive UnpackError.Alike (separator separator' : String) : UnpackError → UnpackError → Prop
  | schema {error error' : SchemaFailure} (h : error.Alike error') :
      Alike separator separator' (.schema error) (.schema error')
  | plan {error error' : PlanError} (h : error.Alike separator separator' error') :
      Alike separator separator' (.plan error) (.plan error')
  | frame {error error' : FrameError} (h : error.Alike (Rejoined separator separator') error') :
      Alike separator separator' (.frame error) (.frame error')

/-- A frame whose columns have names of fields is alike to itself, as no separator is in them. -/
theorem Frame.Within.alike {separator separator' : String} {columns : List String} {frame : Frame}
    (h : frame.Within columns) (hspelled : ∀ name ∈ columns, Spelled name) :
    frame.Alike (Rejoined separator separator') frame := by
  have hcolumn : ∀ column ∈ frame.columns, Rejoined separator separator' column column :=
    fun column hmem => .of_spelled (hspelled column (h.subset hmem))
  refine ⟨forall₂_same.mpr hcolumn, forall₂_same.mpr fun row hrow => forall₂_same.mpr ?_⟩
  intro cell hcell
  refine ⟨hcolumn cell.1 ?_, rfl⟩
  rw [← h.rectangular row hrow]
  exact List.mem_map_of_mem hcell

namespace Plan

variable {schema schema' : Schema} {plan plan' : Plan} {separator separator' : String}

/-- Rows that are alike hold the same values in the leaf columns. -/
theorem Alike.map_cell (hK : Relator.BiUnique (Rejoined separator separator'))
    (h : plan.Alike separator separator' plan') {row row' : Row}
    (hrow : Row.Alike (Rejoined separator separator') row row') :
    (plan.leaves.map Leaf.column).map row.cell = (plan'.leaves.map Leaf.column).map row'.cell := by
  rw [List.map_map, List.map_map]
  exact map_eq_map_of_forall₂ (fun _ _ hleaf => hrow.cell hK hleaf.column) h.leaves

/-- **The end.** From frames that are alike, plans that are alike give the same records. -/
theorem Alike.finish_paired (hK : Relator.BiUnique (Rejoined separator separator'))
    (h : plan.Alike separator separator' plan') (hexecutable : plan.Executable schema)
    (hexecutable' : plan'.Executable schema') (hcolumns : schema.columns = schema'.columns)
    (hdistinct : schema.columns.Nodup) {flat flat' : Frame}
    (hflat : flat.Alike (Rejoined separator separator') flat')
    (hwithin : flat.Within (plan.leaves.map Leaf.column))
    (hwithin' : flat'.Within (plan'.leaves.map Leaf.column)) :
    ∃ result result', plan.finish Frame.engine flat = .ok result ∧
      plan'.finish Frame.engine flat' = .ok result' ∧ result.records = result'.records := by
  obtain ⟨result, hresult, -, hnames, hrows⟩ := hexecutable.finish_eq_ok hdistinct hwithin
  obtain ⟨result', hresult', -, hnames', hrows'⟩ :=
    hexecutable'.finish_eq_ok (hcolumns ▸ hdistinct) hwithin'
  refine ⟨result, result', hresult, hresult', ?_⟩
  have hsame : result.rows = result'.rows := by
    rw [hrows, hrows', ← hcolumns]
    exact map_eq_map_of_forall₂
      (fun _ _ hrow => congrArg schema.columns.zip (h.map_cell hK hrow)) hflat.rows
  rw [Frame.records, Frame.records, Frame.recordColumns, Frame.recordColumns, hnames, hnames',
    hcolumns, hsame]

/-- **Running plans that are alike.** They select the same columns, in which there are names of
fields alone; their steps go side by side, and the end cannot fail. -/
theorem Alike.execute_paired (hs : Delimits separator) (hs' : Delimits separator')
    (h : plan.Alike separator separator' plan') {strategy strategy' : Strategy}
    (hcoherent : schema.Coherent) (hcoherent' : schema'.Coherent)
    (hplan : Plan.ofSchema schema strategy = .ok plan)
    (hplan' : Plan.ofSchema schema' strategy' = .ok plan')
    (hcolumns : schema.columns = schema'.columns)
    (hspelled : FieldNamesSpelled schema.fields) (frame : Frame) :
    Paired (FrameError.Alike (Rejoined separator separator'))
      (fun result result' => result.records = result'.records)
      (plan.execute Frame.engine frame) (plan'.execute Frame.engine frame) := by
  have hK := Rejoined.biUnique hs hs'
  have hexecutable := (ofSchema_ends hcoherent strategy).of_eq_ok hplan
  have hexecutable' := (ofSchema_ends hcoherent' strategy').of_eq_ok hplan'
  obtain ⟨selected, hselect, hselected⟩ := plan.select_sourceColumns frame
  have hstart : Frame.engine.perform
      (.select (plan.sourceColumns (Frame.engine.columns frame))) frame = .ok selected := hselect
  have hsources : plan'.sourceColumns = plan.sourceColumns := by
    unfold sourceColumns
    rw [h.fields]
  have hnames : ∀ name ∈ ((arrival frame.columns plan.fields).map Prod.fst).filter
      (· ∈ frame.columns), Spelled name := by
    intro name hname
    rw [hexecutable.fields] at hname
    exact spelled_of_mem_arrival hspelled _ name (List.mem_filter.mp hname).1
  have hsteps := runSteps_paired hK (hselected.alike hnames) h.steps
  rw [execute_eq, execute_eq, hsources, hstart, ok_bind, ok_bind]
  refine hsteps.with_eq.bind fun flat flat' ⟨hflat, hrun, hrun'⟩ => ?_
  obtain ⟨result, result', hresult, hresult', hrecords⟩ := h.finish_paired hK hexecutable
    hexecutable' hcolumns hcoherent.columns_nodup hflat
    ((run_ends hcoherent hplan hselected).of_eq_ok hrun)
    ((run_ends hcoherent' hplan' (h.fields ▸ hselected)).of_eq_ok hrun')
  rw [hresult, hresult']
  exact .ok hrecords

end Plan

/-- **Separators do not show.** Let both of two separators have some character that is none of an
identifier. Then compiling a schema text succeeds under both or under none of them, with the same
fields, columns and datatypes or with a failure of the same kind at the same place. Under either
strategy, unpacking any records succeeds under both or under none, with the same rows or for the
same cause. -/
theorem unpackRecords_separators (source : Text) {options options' : CompileOptions}
    (hs : Delimits options.separator) (hs' : Delimits options'.separator) :
    Paired SchemaFailure.Alike
      (fun schema schema' => schema.fields = schema'.fields ∧ schema.columns = schema'.columns ∧
        schema.datatypes = schema'.datatypes)
      (compile source options) (compile source options') ∧
    ∀ (strategy : Strategy) (records : List Value),
      Paired (UnpackError.Alike options.separator options'.separator) Eq
        (unpackRecords source records { options with strategy })
        (unpackRecords source records { options' with strategy }) := by
  have hcompile := compile_paired source hs hs'
  refine ⟨hcompile.mono (fun _ _ h => h) fun _ _ h => ⟨h.fields, h.columns, h.datatypes⟩, ?_⟩
  intro strategy records
  refine Paired.map ?_ fun _ _ h => h
  refine (hcompile.with_eq.mapError fun _ _ h => .schema h).bind ?_
  rintro schema schema' ⟨hschemas, hschema, hschema'⟩
  have hcoherent : schema.Coherent := coherent_of_compile hschema
  have hcoherent' : schema'.Coherent := coherent_of_compile hschema'
  have hspelled := fieldNamesSpelled_of_compile hschema
  have hplans : Paired (PlanError.Alike options.separator options'.separator)
      (Plan.Alike options.separator options'.separator) (Plan.ofSchema schema strategy)
      (Plan.ofSchema schema' strategy) := by
    rw [← separator_of_compile hschema] at hs hschemas ⊢
    rw [← separator_of_compile hschema'] at hs' hschemas ⊢
    exact Plan.ofSchema_paired hs hs' hschemas hspelled strategy
  refine (hplans.with_eq.mapError fun _ _ h => .plan h).bind ?_
  rintro plan plan' ⟨halike, hplan, hplan'⟩
  have hexecute := halike.execute_paired hs hs' hcoherent hcoherent' hplan hplan' hschemas.columns
    hspelled (.ofRecords records)
  exact hexecute.mapError fun _ _ h => .frame h

/-- A separator with a letter in it, which some of the names end with, beside the dot. The fields of
one struct go by their full paths, one of which ends with the separator. -/
theorem unpackRecords_separators_letter :
    Delimits "." ∧ Delimits "x-" ∧ ∃ rows,
      unpackRecords (Text.ofString "b=d: Utf8, a: Struct(b: List(Utf8), Struct(c: Utf8)), ax: Utf8")
        [.object [("b", .string "t"), ("a", .object [("b", .array [.string "u", .string "v"]),
          ("", .object [("c", .string "w")])])]] { strategy := .deferred } = .ok rows ∧
      unpackRecords (Text.ofString "b=d: Utf8, a: Struct(b: List(Utf8), Struct(c: Utf8)), ax: Utf8")
        [.object [("b", .string "t"), ("a", .object [("b", .array [.string "u", .string "v"]),
          ("", .object [("c", .string "w")])])]]
        { separator := "x-", strategy := .deferred } = .ok rows := by
  have hdot : Delimits ({} : CompileOptions).separator := by decide
  have hletter : Delimits ({ separator := "x-" } : CompileOptions).separator := by decide
  have hsome : (unpackRecords
      (Text.ofString "b=d: Utf8, a: Struct(b: List(Utf8), Struct(c: Utf8)), ax: Utf8")
      [.object [("b", .string "t"), ("a", .object [("b", .array [.string "u", .string "v"]),
        ("", .object [("c", .string "w")])])]] { strategy := .deferred }).toOption.isSome := by
    decide +kernel
  obtain ⟨rows, hrows⟩ := Option.isSome_iff_exists.mp hsome
  refine ⟨hdot, hletter, rows, toOption_eq_some_iff.mp hrows, ?_⟩
  have hpaired := (unpackRecords_separators
    (Text.ofString "b=d: Utf8, a: Struct(b: List(Utf8), Struct(c: Utf8)), ax: Utf8")
    hdot hletter).2 .deferred
    [.object [("b", .string "t"), ("a", .object [("b", .array [.string "u", .string "v"]),
      ("", .object [("c", .string "w")])])]]
  exact hpaired.eq_ok (toOption_eq_some_iff.mp hrows)

/-- Under a separator that could stand in a name, a path may be that of another name. -/
example : (compile (Text.ofString "a: Struct(b: Utf8), axb: Utf8")).toOption.isSome ∧
    (compile (Text.ofString "a: Struct(b: Utf8), axb: Utf8")
      { separator := "x" }).toOption = none := by
  decide +kernel

end NestedRecords
