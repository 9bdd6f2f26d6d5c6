import NestedRecords.Proofs.Plan.EagerNames
import NestedRecords.Proofs.Schema.Names
import NestedRecords.Proofs.Separators
import NestedRecords.Proofs.Unpack.Arrival

/-!
# Columns while a plan runs

Operations on frames check their columns, and the planner makes its plans on a list of columns that
a frame only resembles: some columns may be missing, and an anonymous struct at the root may stand
spread out. For any records, whether the plan is clear for them or not, the columns of the frame are
still among known ones. While the struct is awaited these are the columns that are done, those below
the entry at hand, and the names that are spread out (`Threads.run_ends`); else they are those that
are done or pending (`Unravels.run_ends`).

So no operation of a plan misses a column, and no two columns get one name. There is one check that
may strike, which is that of a step which gives a field the name of a column that is spread out. By
an eager plan this does not happen, as long as the separator is none that could stand in a name.
-/

namespace NestedRecords

open NestedRecords.Tree

/-! ### Running the steps -/

/-- **Columns done or pending.** On a frame whose columns are among these, the steps of an
unraveling fail on a misfit or leave columns that are done. -/
theorem Unravels.run_ends {done : List String} {pending : Fields} {steps : List Step}
    {out : List String} (h : Unravels done pending steps out) : ∀ {frame : Frame},
      (done ++ pending.map Prod.fst).Nodup → frame.Within (done ++ pending.map Prod.fst) →
      Ends FrameError.IsMisfit (Frame.Within out)
        (steps.foldlM (Plan.runStep Frame.engine) frame) := by
  induction h with
  | nil done =>
    intro frame _ hframe
    rw [List.map_nil, List.append_nil] at hframe
    exact .ok hframe
  | scalar _ ih =>
    intro frame hdistinct hframe
    rw [List.map_cons, List.append_cons] at hdistinct hframe
    exact ih hdistinct hframe
  | list _ ih =>
    intro frame hdistinct hframe
    rw [List.foldlM_cons]
    exact (hframe.runStep_explode _).bind fun after hafter => ih hdistinct hafter
  | @struct done column lead fields pending _ _ distinct _ ih =>
    intro frame hdistinct hframe
    rw [List.foldlM_cons]
    rw [List.map_append, map_fst_leadFields, ← List.append_assoc] at ih
    rw [fieldColumns_eq] at distinct ih
    have hfields := (List.nodup_append.mp (List.nodup_append.mp distinct).1).2.1
    have hnew : (fields.map Prod.fst).map (lead ++ ·) ⊆
        done ++ (fields.map Prod.fst).map (lead ++ ·) ++ pending.map Prod.fst :=
      fun name hname => List.mem_append_left _ (List.mem_append_right _ hname)
    have hstep := hframe.runStep_unnest hfields (fun _ => mem_middle_of_ne _) hnew
    refine (hstep.mono ?_ fun _ h => h).bind fun after hafter => ih distinct hafter
    -- the planner has made sure that the new names are none of the others
    rintro error (hmisfit | ⟨name, hname, hin, hne, -, -⟩)
    · exact hmisfit
    · exact absurd (eq_of_mem_middle distinct hname (hframe.subset hin)) hne

/-- **Taken names.** A step on a column that has a name gives one of its fields a name that is among
the given ones. -/
def GivesOut (steps : List Step) (names : List String) (name : String) : Prop :=
  name ∈ names ∧ ∃ column lead fields, Step.unnest column lead fields ∈ steps ∧ column ≠ "" ∧
    name ∈ fields.map (lead ++ ·)

/-- The ways in which steps can fail where some names are there that the planner has not reckoned
with: on a misfit, or as they give out one of these names. -/
def Strikes (steps : List Step) (names : List String) (error : FrameError) : Prop :=
  error.IsMisfit ∨ ∃ name, error = .existingColumn name ∧ GivesOut steps names name

theorem Strikes.mono {steps more : List Step} {names others : List String} {error : FrameError}
    (h : Strikes steps names error) (hsteps : steps ⊆ more) (hnames : names ⊆ others) :
    Strikes more others error := by
  refine h.imp_right ?_
  rintro ⟨name, herror, hname, column, lead, fields, hstep, hgives⟩
  exact ⟨name, herror, hnames hname, column, lead, fields, hsteps hstep, hgives⟩

/-- **A struct in front of what is awaited.** Its step fails on a misfit, or as it gives a field the
name of a column that is spread out. -/
private theorem runStep_struct {done : List String} {column lead : String}
    {fields below root : Fields} {frame : Frame} (habsent : "" ∉ frame.columns)
    (distinct : (done ++ Unfolding.fieldColumns lead fields ++ (below ++ root).map Prod.fst).Nodup)
    (hframe : frame.Within (done ++ column :: (below.map Prod.fst ++ spreadNames root))) :
    Ends (Strikes [.unnest column lead (fields.map Prod.fst)] (spreadNames root))
      (Frame.Within (done ++ ((leadFields lead fields ++ below).map Prod.fst ++ spreadNames root)))
      (Plan.runStep Frame.engine frame (.unnest column lead (fields.map Prod.fst))) := by
  rw [fieldColumns_eq] at distinct
  have hfields := (List.nodup_append.mp (List.nodup_append.mp distinct).1).2.1
  have hnext : done ++ ((leadFields lead fields ++ below).map Prod.fst ++ spreadNames root) =
      done ++ (fields.map Prod.fst).map (lead ++ ·) ++
        (below.map Prod.fst ++ spreadNames root) := by
    rw [List.map_append, map_fst_leadFields, fieldColumns_eq, List.append_assoc, List.append_assoc]
  have hnew : (fields.map Prod.fst).map (lead ++ ·) ⊆ done ++
      (fields.map Prod.fst).map (lead ++ ·) ++ (below.map Prod.fst ++ spreadNames root) :=
    fun name hname => List.mem_append_left _ (List.mem_append_right _ hname)
  rw [hnext]
  refine (hframe.runStep_unnest hfields (fun _ => mem_middle_of_ne _) hnew).mono ?_ fun _ h => h
  rintro error (hmisfit | ⟨name, hname, hin, hne, hcolumn, rfl⟩)
  · exact .inl hmisfit
  -- a name that is taken is none of the planner's, so it is one that is spread out
  · have hplanned := notMem_of_nodup_middle distinct hname
    have hmem := List.perm_middle.mem_iff.mp (hframe.subset hin)
    simp only [List.map_append, List.mem_cons, List.mem_append, hne, false_or, not_or]
      at hmem hplanned
    have hspread : name ∈ spreadNames root :=
      (hmem.resolve_left hplanned.1).resolve_left hplanned.2.1
    exact .inr ⟨name, rfl, hspread, column, lead, _, List.mem_cons_self,
      fun heq => habsent (heq ▸ hcolumn), hname⟩

/-- **Columns that are spread out.** While an anonymous struct is awaited that stands spread out,
the steps of a plan fail on a misfit or on a name that is spread out, or leave columns that are
done. -/
theorem Threads.run_ends {done : List String} {below root : Fields} {steps : List Step}
    {out : List String} (h : Threads done below root steps out) : ∀ {frame : Frame},
      Wrapped root → (done ++ (below ++ root).map Prod.fst).Nodup →
      frame.Within (done ++ (below.map Prod.fst ++ spreadNames root)) →
      Ends (Strikes steps (spreadNames root)) (Frame.Within out)
        (steps.foldlM (Plan.runStep Frame.engine) frame) := by
  induction h with
  | nil done =>
    rintro frame ⟨_, hmem⟩
    contradiction
  | @enter done entry root steps out whole _ ih =>
    intro frame hwrapped hdistinct hframe
    rw [spreadNames_cons whole] at hframe ⊢
    have hsub : ([entry.1].filter (· ≠ "")) ++ spreadNames root ⊆ entry.1 :: spreadNames root :=
      List.append_subset.mpr ⟨fun name hname => List.mem_cons.mpr
        (.inl (List.mem_singleton.mp (List.mem_filter.mp hname).1)), List.subset_cons_self _ _⟩
    have hmore : frame.Within (done ++ (entry.1 :: spreadNames root)) :=
      hframe.mono (List.append_subset.mpr ⟨List.subset_append_left _ _,
        List.Subset.trans hsub (List.subset_append_right _ _)⟩)
    refine (ih (hwrapped.of_cons whole) hdistinct hmore).mono (fun error herror => ?_) fun _ h => h
    exact herror.mono (fun _ h => h) (List.subset_append_right _ _)
  | @aside done fields root steps out distinct rest ih =>
    intro frame hwrapped hdistinct hframe
    have habsent : "" ∉ frame.columns := fun hmem =>
      anonymous_notMem_of_wrapped hwrapped hdistinct (hframe.subset hmem)
    have hskip : Plan.runStep Frame.engine frame (.unnest "" "" (fields.map Prod.fst)) =
        .ok frame := if_neg habsent
    rw [spreadNames_anonymous] at hframe ⊢
    rw [List.foldlM_cons, hskip, ok_bind]
    by_cases hmore : Wrapped (fields ++ root)
    · refine (ih hmore distinct hframe).mono (fun error herror => ?_) fun _ h => h
      exact herror.mono (List.subset_cons_self _ _) fun _ h => h
    -- where no struct is awaited any more, all is as the planner has it
    · have hplanned : frame.Within (done ++ (fields ++ root).map Prod.fst) :=
        hframe.mono (List.append_subset.mpr ⟨List.subset_append_left _ _,
          List.Subset.trans (spreadNames_subset hmore) (List.subset_append_right _ _)⟩)
      exact (rest.unravels.run_ends distinct hplanned).mono (fun _ => .inl) fun _ h => h
  | scalar _ ih =>
    intro frame hwrapped hdistinct hframe
    rw [List.cons_append, List.map_cons, List.append_cons] at hdistinct
    rw [List.map_cons, List.cons_append, List.append_cons] at hframe
    exact ih hwrapped hdistinct hframe
  | list _ ih =>
    intro frame hwrapped hdistinct hframe
    rw [List.foldlM_cons]
    refine Ends.bind ((hframe.runStep_explode _).mono (fun _ => .inl) fun _ h => h)
      fun after hafter => ?_
    refine (ih hwrapped hdistinct hafter).mono (fun error herror => ?_) fun _ h => h
    exact herror.mono (List.subset_cons_self _ _) fun _ h => h
  | @struct done column lead fields below root steps _ distinct _ ih =>
    intro frame hwrapped hdistinct hframe
    have habsent : "" ∉ frame.columns := fun hmem =>
      anonymous_notMem_of_wrapped hwrapped hdistinct (hframe.subset hmem)
    rw [List.map_cons, List.cons_append] at hframe
    rw [List.foldlM_cons]
    refine Ends.bind ((runStep_struct habsent distinct hframe).mono (fun error herror => ?_)
      fun _ h => h) fun after hafter => ?_
    · exact herror.mono (List.cons_subset_cons _ (List.nil_subset _)) fun _ h => h
    · rw [List.append_assoc, ← map_fst_leadFields, ← List.map_append, ← List.append_assoc]
        at distinct
      exact (ih hwrapped distinct hafter).mono
        (fun error herror => herror.mono (List.subset_cons_self _ _) fun _ h => h) fun _ h => h

/-! ### Running the plan -/

namespace Plan

variable {schema : Schema} {strategy : Strategy} {plan : Plan}

/-- **The start.** A plan can select the columns it begins with, and these are among the names of
the fields as they arrive. -/
theorem select_sourceColumns (plan : Plan) (frame : Frame) :
    ∃ selected, frame.select (plan.sourceColumns frame.columns) = .ok selected ∧
      selected.Within (((arrival frame.columns plan.fields).map Prod.fst).filter
        (· ∈ frame.columns)) := by
  rw [sourceColumns, fieldSources_eq]
  have hsub : ∀ names : List String, names.eraseDups ⊆ names :=
    fun _ _ hname => List.mem_eraseDups.mp hname
  obtain ⟨selected, hselect, -, hwithin⟩ := Frame.Within.select (nodup_eraseDups _)
    (List.Subset.trans (hsub _) fun name hname => of_decide_eq_true (List.mem_filter.mp hname).2)
  exact ⟨selected, hselect, hwithin.mono (hsub _)⟩

/-- **The steps.** On the columns that a plan begins with, its steps fail on a misfit or leave leaf
columns only. Where an anonymous struct stands spread out, a step may strike a name of its
fields. -/
theorem run_ends (hcoherent : schema.Coherent) (hplan : Plan.ofSchema schema strategy = .ok plan)
    {present : List String} {selected : Frame}
    (hselected : selected.Within (((arrival present plan.fields).map Prod.fst).filter
      (· ∈ present))) :
    Ends (fun error => error.IsMisfit ∨ ∃ name, error = .existingColumn name ∧
        Wrapped plan.fields ∧ "" ∉ present ∧ GivesOut plan.steps plan.spreadColumns name)
      (Frame.Within (plan.leaves.map Leaf.column))
      (plan.steps.foldlM (runStep Frame.engine) selected) := by
  have hexecutable := (ofSchema_ends hcoherent strategy).of_eq_ok hplan
  obtain ⟨hsiblings, -⟩ := hcoherent.names_distinct
  obtain ⟨hfields, hthreads⟩ := threads_of_ofSchema hcoherent hplan
  by_cases hspread : Wrapped plan.fields ∧ "" ∉ present
  · obtain ⟨hwrapped, habsent⟩ := hspread
    rw [arrival_of_notMem habsent] at hselected
    have hnames : plan.spreadColumns = spreadNames schema.fields := by
      rw [spreadColumns, hfields, spreadNames]
    rw [hfields] at hselected hwrapped ⊢
    have hstart : selected.Within
        ([] ++ (([] : Fields).map Prod.fst ++ spreadNames schema.fields)) := by
      refine hselected.mono fun name hname => ?_
      obtain ⟨hname, hpresent⟩ := List.mem_filter.mp hname
      refine List.mem_filter.mpr ⟨hname, decide_eq_true ?_⟩
      rintro rfl
      exact habsent (of_decide_eq_true hpresent)
    refine (hthreads.run_ends hwrapped hsiblings hstart).mono ?_ fun _ h => h
    rintro error (hmisfit | ⟨name, rfl, hgives⟩)
    · exact .inl hmisfit
    · exact .inr ⟨name, rfl, hwrapped, habsent, hnames ▸ hgives⟩
  · have harrival : arrival present plan.fields = schema.fields := by
      rw [hfields] at hspread ⊢
      by_cases hpresent : "" ∈ present
      · exact arrival_of_mem hpresent _
      · exact arrival_eq_self (fun hwrapped => hspread ⟨hwrapped, hpresent⟩) _
    rw [harrival] at hselected
    have hstart := hselected.mono fun _ hname => (List.mem_filter.mp hname).1
    exact (hexecutable.unravels.run_ends hsiblings hstart).mono (fun _ => .inl) fun _ h => h

/-- **The whole run.** What is left once the steps have run cannot fail, and gives the output
columns. -/
theorem execute_ends (hcoherent : schema.Coherent)
    (hplan : Plan.ofSchema schema strategy = .ok plan) (frame : Frame) :
    Ends (fun error => error.IsMisfit ∨ ∃ name, error = .existingColumn name ∧
        Wrapped plan.fields ∧ "" ∉ frame.columns ∧ GivesOut plan.steps plan.spreadColumns name)
      (fun result => result.columns = schema.columns) (plan.execute Frame.engine frame) := by
  have hexecutable := (ofSchema_ends hcoherent strategy).of_eq_ok hplan
  obtain ⟨selected, hselect, hselected⟩ := plan.select_sourceColumns frame
  have hstart : Frame.engine.perform
      (.select (plan.sourceColumns (Frame.engine.columns frame))) frame = .ok selected := hselect
  rw [execute_eq, hstart, ok_bind]
  refine (run_ends hcoherent hplan hselected).bind fun flat hflat => ?_
  obtain ⟨result, hresult, -, hcolumns, -⟩ :=
    hexecutable.finish_eq_ok hcoherent.columns_nodup hflat
  rw [hresult]
  exact .ok hcolumns

/-- **Column checks.** The plan of a compiled schema, run on any records, fails on a value of
another shape, or completes and has the output columns. There is one check of columns that can
strike. Where the records hold an anonymous struct at the root spread out and the plan is not clear
for them, a step may give a field a name that is spread out; an eager plan does so only if the
separator is one that could stand in a name. -/
theorem execute_ends_of_compile {source : Text} {options : UnpackOptions}
    (hschema : compile source options.toCompileOptions = .ok schema)
    (hplan : Plan.ofSchema schema options.strategy = .ok plan) (records : List Value) :
    Ends (fun error => error.IsMisfit ∨ ∃ name, error = .existingColumn name ∧
        GivesOut plan.steps plan.spreadColumns name ∧ ¬plan.ClearFor records ∧
        (options.strategy = .eager → ¬Delimits options.separator))
      (fun result => result.columns = schema.columns)
      (plan.execute Frame.engine (.ofRecords records)) := by
  have hcoherent : schema.Coherent := coherent_of_compile hschema
  have hexecutable := (ofSchema_ends hcoherent options.strategy).of_eq_ok hplan
  have hends := execute_ends hcoherent hplan (.ofRecords records)
  cases hexecute : plan.execute Frame.engine (.ofRecords records) with
  | ok result => exact .ok (hends.of_eq_ok hexecute)
  | error error =>
    rcases hends.of_eq_error hexecute with hmisfit | ⟨name, rfl, -, -, hgives⟩
    · exact .error (.inl hmisfit)
    refine .error (.inr ⟨name, rfl, hgives, fun hclear => ?_, fun heager hdelimits => ?_⟩)
    -- with a plan that is clear for the records, only misfits are left
    · obtain ⟨hnames, live, hlive, hagree⟩ := exists_live_of_clearFor hcoherent hplan hclear rfl
      have hclean := (hexecutable.execute_ends_of_agree hcoherent.columns_nodup rfl hnames hlive
        hagree).of_eq_error hexecute
      cases hclean.1
    -- an eager name has the separator in it, and a name that is spread out has not
    · obtain ⟨hspread, column, lead, fields, hstep, hcolumn, hname⟩ := hgives
      obtain ⟨field, -, rfl⟩ := List.mem_map.mp hname
      rw [heager] at hplan
      obtain ⟨before, rfl⟩ := (delimited_of_ofSchema hplan _ hstep).resolve_left hcolumn
      rw [separator_of_compile hschema] at hspread
      refine hdelimits.not_spelled before field ?_
      refine spelled_of_mem_unwrapFields _ (fieldNamesSpelled_of_compile hschema) _ ?_
      rw [← hexecutable.fields]
      exact (List.mem_filter.mp hspread).1

/-- Under the eager strategy, a struct that is none is all that can go wrong, though the anonymous
struct stands spread out and has a field of a name that comes up twice. -/
theorem execute_ends_of_compile_eager :
    ∃ schema plan error,
      compile (Text.ofString "x: Struct(a: Struct(c: Utf8)), Struct(a: Utf8)") = .ok schema ∧
      Plan.ofSchema schema .eager = .ok plan ∧
      plan.execute Frame.engine (.ofRecords [.object [("x", .string "s"), ("a", .string "v")]]) =
        .error error ∧ error.IsMisfit := by
  have hplanned : ((compile (Text.ofString
      "x: Struct(a: Struct(c: Utf8)), Struct(a: Utf8)")).toOption.bind fun schema =>
        (Plan.ofSchema schema .eager).toOption.map fun plan =>
          (plan.execute Frame.engine
            (.ofRecords [.object [("x", .string "s"), ("a", .string "v")]])).toOption.isNone) =
              some true := by
    decide +kernel
  obtain ⟨schema, hschema, hplanned⟩ := Option.bind_eq_some_iff.mp hplanned
  obtain ⟨plan, hplan, hnone⟩ := Option.map_eq_some_iff.mp hplanned
  obtain ⟨error, herror⟩ := toOption_eq_none_iff.mp (Option.isNone_iff_eq_none.mp hnone)
  have hcompile : compile (Text.ofString "x: Struct(a: Struct(c: Utf8)), Struct(a: Utf8)")
      ({} : UnpackOptions).toCompileOptions = .ok schema := toOption_eq_some_iff.mp hschema
  have hmade := toOption_eq_some_iff.mp hplan
  refine ⟨schema, plan, error, hcompile, hmade, herror, ?_⟩
  have hends := (execute_ends_of_compile hcompile hmade
    [.object [("x", .string "s"), ("a", .string "v")]]).of_eq_error herror
  rcases hends with hmisfit | ⟨_, -, -, -, hdelimits⟩
  · exact hmisfit
  · exact absurd (by decide) (hdelimits rfl)

/-- **A check strikes.** The deferred plan of the same schema calls a field by its own name, which
is that of a column of the record. -/
theorem execute_ends_of_compile_fails :
    ∃ schema plan,
      compile (Text.ofString "x: Struct(a: Struct(c: Utf8)), Struct(a: Utf8)") = .ok schema ∧
      Plan.ofSchema schema .deferred = .ok plan ∧
      plan.execute Frame.engine (.ofRecords
        [.object [("x", .object [("a", .object [("c", .string "u")])]), ("a", .string "v")]]) =
          .error (.existingColumn "a") := by
  have hplanned : ((compile (Text.ofString
      "x: Struct(a: Struct(c: Utf8)), Struct(a: Utf8)")).toOption.bind fun schema =>
        (Plan.ofSchema schema .deferred).toOption.bind fun plan =>
          match plan.execute Frame.engine (.ofRecords [.object
            [("x", .object [("a", .object [("c", .string "u")])]), ("a", .string "v")]]) with
          | .error error => some error
          | .ok _ => none) = some (.existingColumn "a") := by
    decide +kernel
  obtain ⟨schema, hschema, hplanned⟩ := Option.bind_eq_some_iff.mp hplanned
  obtain ⟨plan, hplan, hplanned⟩ := Option.bind_eq_some_iff.mp hplanned
  refine ⟨schema, plan, toOption_eq_some_iff.mp hschema, toOption_eq_some_iff.mp hplan, ?_⟩
  split at hplanned
  · rename_i error herror
    rw [herror, Option.some.inj hplanned]
  · contradiction

end Plan

end NestedRecords
