import NestedRecords.Plan.Execution
import NestedRecords.Proofs.Frame.Effects
import NestedRecords.Proofs.Plan.Threading

/-!
# Steps that are skipped

Where an anonymous struct of the record arrives spread out, the names of its fields stand among the
columns from the beginning, while the planner only expects them once it comes to the struct. The
steps in front of that one are free to use these names for columns of their own. `Plan.Clear` says
that they do not: on the columns of a record that has all fields, every step whose column is there
finds its new names free.

The steps of a clear plan that are not skipped, its *live* steps, then unravel the fields as they
arrive, and a frame cannot tell them from all the steps of the plan (`Threads.exists_live`).
-/

namespace NestedRecords

open NestedRecords.Tree

/-! ### Clear plans -/

/-- The columns behind a step that is skipped if its column is not there. -/
def Step.pass? (columns : List String) (step : Step) : Option (List String) :=
  if step.column ∈ columns then step.replay? columns else some columns

namespace Plan

/-- The columns of a record that has all fields, with its anonymous structs spread out. -/
def spreadColumns (plan : Plan) : List String :=
  ((unwrapFields plan.fields).map Prod.fst).filter (· ≠ "")

/-- **Clear plans.** When the anonymous structs of a record arrive spread out, no two fields come in
one column, and no step makes a column whose name is taken. -/
structure Clear (plan : Plan) : Prop where
  distinct : ((unwrapFields plan.fields).map Prod.fst).Nodup
  passes : (plan.steps.foldlM Step.pass? plan.spreadColumns).isSome = true

instance (plan : Plan) : Decidable plan.Clear :=
  decidable_of_iff (((unwrapFields plan.fields).map Prod.fst).Nodup ∧
    (plan.steps.foldlM Step.pass? plan.spreadColumns).isSome = true)
    ⟨fun h => ⟨h.1, h.2⟩, fun h => ⟨h.1, h.2⟩⟩

end Plan

/-! ### Steps on fewer columns -/

namespace Step

variable {column lead : String} {fields columns columns' : List String}

theorem pass?_of_notMem {step : Step} (h : step.column ∉ columns) :
    step.pass? columns = some columns := if_neg h

theorem pass?_explode : (explode column).pass? columns = some columns := by
  unfold pass?
  split
  · rename_i h
    exact replay?_explode h
  · rfl

/-- Passing a struct that is there. -/
theorem of_pass?_unnest (h : (unnest column lead fields).pass? columns = some columns')
    (hcolumn : column ∈ columns) : (fields.map (lead ++ ·)).Nodup ∧
      (∀ name ∈ fields.map (lead ++ ·), name ∈ columns → name = column) ∧
      spread column (fields.map (lead ++ ·)) columns = columns' := by
  have hpass : (unnest column lead fields).pass? columns =
      (unnest column lead fields).replay? columns := if_pos hcolumn
  rw [hpass, replay?] at h
  split at h
  · rename_i hfree
    exact ⟨hfree.2.1, hfree.2.2, Option.some.inj h⟩
  · contradiction

end Step

namespace Frame

variable {frame after : Frame} {step : Step} {columns columns' : List String}

/-- **Step lemma.** A step on a frame that has some of the columns leaves it with some of the
columns behind the step. -/
theorem columns_runStep_subset (hrun : Plan.runStep engine frame step = .ok after)
    (hpass : step.pass? columns = some columns') (h : frame.columns ⊆ columns) :
    after.columns ⊆ columns' := by
  by_cases hmem : step.column ∈ frame.columns
  · have hstep : frame.perform step.operation = .ok after := (if_pos hmem).symm.trans hrun
    obtain ⟨-, rfl⟩ := perform_eq_ok_iff.mp hstep
    cases step with
    | explode column =>
      rw [Step.pass?_explode] at hpass
      obtain rfl := Option.some.inj hpass
      exact h
    | unnest column lead fields =>
      obtain ⟨-, -, rfl⟩ := Step.of_pass?_unnest hpass (h hmem)
      exact spread_subset h
  -- a step that is skipped takes away no column that is there
  · have hskip : Plan.runStep engine frame step = .ok frame := if_neg hmem
    obtain rfl := Except.ok.inj (hskip.symm.trans hrun)
    intro name hname
    have hne : name ≠ step.column := fun heq => hmem (heq ▸ hname)
    by_cases hcolumn : step.column ∈ columns
    · cases step with
      | explode column =>
        rw [Step.pass?_explode] at hpass
        obtain rfl := Option.some.inj hpass
        exact h hname
      | unnest column lead fields =>
        obtain ⟨-, -, rfl⟩ := Step.of_pass?_unnest hpass hcolumn
        exact mem_spread (h hname) hne
    · rw [Step.pass?_of_notMem hcolumn] at hpass
      obtain rfl := Option.some.inj hpass
      exact h hname

end Frame

/-! ### Live steps -/

/-- **Steps that agree.** No frame that has only some of the columns can tell the two lists of steps
apart. -/
def Agree (columns : List String) (steps live : List Step) : Prop :=
  ∀ frame : Frame, frame.columns ⊆ columns →
    steps.foldlM (Plan.runStep Frame.engine) frame = live.foldlM (Plan.runStep Frame.engine) frame

namespace Agree

variable {columns columns' : List String} {step : Step} {steps live : List Step}

theorem refl (columns : List String) (steps : List Step) : Agree columns steps steps :=
  fun _ _ => rfl

/-- A step that is skipped is no live step. -/
theorem skip (hstep : step.column ∉ columns) (h : Agree columns steps live) :
    Agree columns (step :: steps) live := by
  intro frame hframe
  have hskip : Plan.runStep Frame.engine frame step = .ok frame :=
    if_neg fun hmem => hstep (hframe hmem)
  rw [List.foldlM_cons, hskip, ok_bind]
  exact h frame hframe

theorem cons (hpass : step.pass? columns = some columns') (h : Agree columns' steps live) :
    Agree columns (step :: steps) (step :: live) := by
  intro frame hframe
  rw [List.foldlM_cons, List.foldlM_cons]
  cases hrun : Plan.runStep Frame.engine frame step with
  | error e => rfl
  | ok after => exact h after (Frame.columns_runStep_subset hrun hpass hframe)

end Agree

/-- While an anonymous struct is awaited, no column is without a name: not those that are done or
below the entry at hand, as the planner has them apart from the struct, and not those that are
spread out. -/
theorem anonymous_notMem_of_wrapped {done : List String} {below root : Fields}
    (hwrapped : Wrapped root) (hplanned : (done ++ (below ++ root).map Prod.fst).Nodup) :
    "" ∉ done ++ (below.map Prod.fst ++ spreadNames root) := by
  obtain ⟨inner, hinner⟩ := hwrapped
  have hroot : "" ∈ root.map Prod.fst := List.mem_map_of_mem hinner
  rw [List.map_append, ← List.append_assoc] at hplanned
  rw [← List.append_assoc]
  intro hmem
  rcases List.mem_append.mp hmem with hmem | hmem
  · exact (List.nodup_append.mp hplanned).2.2 _ hmem _ hroot rfl
  · exact empty_notMem_spreadNames root hmem

/-- **Awaiting an anonymous struct.** Where the steps stand as long as the entries behind the one at
hand have an anonymous struct among them, whose fields are there already. The planner counts with
other columns than those that are there, and neither have a name twice. A column without a name is
not there, since it would stand for the anonymous struct. -/
structure Awaits (done : List String) (below root : Fields) (columns : List String) : Prop where
  wrapped : Wrapped root
  planned : (done ++ (below ++ root).map Prod.fst).Nodup
  arrived : (done ++ (below ++ unwrapFields root).map Prod.fst).Nodup
  columns : columns =
    done ++ below.map Prod.fst ++ ((unwrapFields root).map Prod.fst).filter (· ≠ "")

namespace Awaits

variable {done columns columns' : List String} {below root : Fields}

theorem anonymous_mem_root (h : Awaits done below root columns) : "" ∈ root.map Prod.fst := by
  obtain ⟨inner, hinner⟩ := h.wrapped
  exact List.mem_map_of_mem hinner

theorem anonymous_notMem (h : Awaits done below root columns) : "" ∉ columns := by
  rw [h.columns, List.append_assoc]
  exact anonymous_notMem_of_wrapped h.wrapped h.planned

/-- Of the columns that arrive, those with a name are there. -/
theorem mem_columns (h : Awaits done below root columns) {name : String} (hname : name ≠ "")
    (hmem : name ∈ done ++ (below ++ unwrapFields root).map Prod.fst) : name ∈ columns := by
  rw [h.columns]
  simpa [hname] using hmem

theorem nodup_columns (h : Awaits done below root columns) : columns.Nodup := by
  have harrived := h.arrived
  rw [List.map_append, ← List.append_assoc] at harrived
  rw [h.columns]
  exact harrived.sublist (List.filter_sublist.append_left _)

/-! The steps of the wait. -/

theorem enter {entry : String × Tree} (h : Awaits done [] (entry :: root) columns)
    (whole : ¬Wrapped [entry]) : Awaits done [entry] root columns := by
  obtain ⟨name, type⟩ := entry
  have hunwrap : unwrapFields ((name, type) :: root) = (name, type) :: unwrapFields root := by
    rw [unwrapFields, unwrap_eq_self whole]
    rfl
  obtain ⟨inner, hroot⟩ := h.wrapped.of_cons whole
  have hname : name ≠ "" := by
    rintro rfl
    have hplanned := (List.nodup_append.mp h.planned).2.1
    exact (List.nodup_cons.mp hplanned).1 (List.mem_map.mpr ⟨_, hroot, rfl⟩)
  refine ⟨⟨inner, hroot⟩, h.planned, ?_, ?_⟩
  · have harrived := h.arrived
    rw [hunwrap] at harrived
    exact harrived
  · rw [h.columns, hunwrap, List.map_cons, List.filter_cons_of_pos (by simpa using hname)]
    simp

theorem aside {fields : Fields} (h : Awaits done [] (("", .struct fields) :: root) columns)
    (hwrapped : Wrapped (fields ++ root))
    (distinct : (done ++ (fields ++ root).map Prod.fst).Nodup) :
    Awaits done [] (fields ++ root) columns := by
  have harrived := h.arrived
  have hcolumns := h.columns
  rw [unwrapFields_anonymous] at harrived hcolumns
  exact ⟨hwrapped, distinct, harrived, hcolumns⟩

theorem scalar {column : String} {datatype : Datatype}
    (h : Awaits done ((column, .scalar datatype) :: below) root columns) :
    Awaits (done ++ [column]) below root columns := by
  have hplanned := h.planned
  have harrived := h.arrived
  rw [List.cons_append, List.map_cons, List.append_cons] at hplanned harrived
  refine ⟨h.wrapped, hplanned, harrived, ?_⟩
  rw [h.columns, List.map_cons, List.append_cons]

theorem list {column : String} {element : Tree}
    (h : Awaits done ((column, .list element) :: below) root columns) :
    Awaits done ((column, element) :: below) root columns :=
  ⟨h.wrapped, h.planned, h.arrived, h.columns⟩

theorem struct {column lead : String} {fields : Fields}
    (h : Awaits done ((column, .struct fields) :: below) root columns)
    (distinct : (done ++ Unfolding.fieldColumns lead fields ++ (below ++ root).map Prod.fst).Nodup)
    (hpass : (Step.unnest column lead (fields.map Prod.fst)).pass? columns = some columns') :
    Awaits done (leadFields lead fields ++ below) root columns' := by
  have hcolumns : columns = done ++ column ::
      (below.map Prod.fst ++ ((unwrapFields root).map Prod.fst).filter (· ≠ "")) := by
    rw [h.columns, List.map_cons, List.append_assoc]
    rfl
  have hmem : column ∈ columns := hcolumns ▸ List.mem_append_right _ List.mem_cons_self
  obtain ⟨hfields, hfree, rfl⟩ := Step.of_pass?_unnest hpass hmem
  rw [fieldColumns_eq] at distinct
  have hplanned : (done ++ (leadFields lead fields ++ below ++ root).map Prod.fst).Nodup := by
    rw [List.append_assoc, List.map_append, map_fst_leadFields, fieldColumns_eq,
      ← List.append_assoc]
    exact distinct
  refine ⟨h.wrapped, hplanned, ?_, ?_⟩
  · rw [List.append_assoc, List.map_append, map_fst_leadFields, fieldColumns_eq,
      ← List.append_assoc]
    -- the new names are none of the planner's, and so not empty
    refine nodup_middle h.arrived hfields fun name hname hin => hfree name hname ?_
    refine h.mem_columns ?_ hin
    rintro rfl
    refine notMem_of_nodup_middle distinct hname (List.mem_append_right _ ?_)
    rw [List.map_append]
    exact List.mem_append_right _ h.anonymous_mem_root
  · have hnodup := h.nodup_columns
    rw [hcolumns] at hnodup ⊢
    rw [spread_middle hnodup, List.map_append, map_fst_leadFields, fieldColumns_eq]
    simp only [List.append_assoc]

end Awaits

namespace Threads

variable {done out : List String} {below root : Fields} {steps : List Step}

/-- **Live steps.** If all steps pass while an anonymous struct is awaited, some of them unravel the
fields as they arrive, and agree with all of them. -/
theorem exists_live (h : Threads done below root steps out) : ∀ {columns last : List String},
    Awaits done below root columns → steps.foldlM Step.pass? columns = some last →
      ∃ live, Unravels done (below ++ unwrapFields root) live out ∧ Agree columns steps live := by
  induction h with
  | nil done =>
    intro columns last hawaits _
    obtain ⟨_, hmem⟩ := hawaits.wrapped
    contradiction
  | @enter done entry root steps out whole _ ih =>
    intro columns last hawaits hpass
    obtain ⟨live, hlive, hagree⟩ := ih (hawaits.enter whole) hpass
    refine ⟨live, ?_, hagree⟩
    rw [unwrapFields, unwrap_eq_self whole]
    exact hlive
  | @aside done fields root steps out distinct rest ih =>
    intro columns last hawaits hpass
    have hskip : (Step.unnest "" "" (fields.map Prod.fst)).column ∉ columns :=
      hawaits.anonymous_notMem
    rw [List.foldlM_cons, Step.pass?_of_notMem hskip] at hpass
    rw [unwrapFields_anonymous]
    -- the struct may have been the last one, and then all is as the planner has it
    by_cases hwrapped : Wrapped (fields ++ root)
    · obtain ⟨live, hlive, hagree⟩ := ih (hawaits.aside hwrapped distinct) hpass
      exact ⟨live, hlive, hagree.skip hskip⟩
    · rw [unwrapFields_eq_self hwrapped]
      exact ⟨steps, rest.unravels, (Agree.refl columns steps).skip hskip⟩
  | scalar _ ih =>
    intro columns last hawaits hpass
    obtain ⟨live, hlive, hagree⟩ := ih hawaits.scalar hpass
    exact ⟨live, .scalar hlive, hagree⟩
  | list _ ih =>
    intro columns last hawaits hpass
    rw [List.foldlM_cons, Step.pass?_explode] at hpass
    obtain ⟨live, hlive, hagree⟩ := ih hawaits.list hpass
    exact ⟨_, .list hlive, hagree.cons Step.pass?_explode⟩
  | struct distinct _ ih =>
    intro columns last hawaits hpass
    rw [List.foldlM_cons] at hpass
    obtain ⟨columns', hstep, hpass⟩ := Option.bind_eq_some_iff.mp hpass
    have hnext := hawaits.struct distinct hstep
    obtain ⟨live, hlive, hagree⟩ := ih hnext hpass
    refine ⟨_, .struct ?_ ?_, hagree.cons hstep⟩
    · have harrived := hnext.arrived
      rw [List.append_assoc, List.map_append, map_fst_leadFields, ← List.append_assoc] at harrived
      exact harrived
    · rw [List.append_assoc] at hlive
      exact hlive

end Threads

end NestedRecords
