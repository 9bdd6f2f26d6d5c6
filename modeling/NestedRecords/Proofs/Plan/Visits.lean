import Mathlib.Data.List.Perm.Subperm
import NestedRecords.Proofs.Plan.Unfolding

/-!
# The columns a planner comes to

A schema that is put together by hand may give several columns one name. Then the planner replaces
the first column of the name of a struct, which need not be the struct's own, and its look for
collisions passes over all columns of that name. Still it never looks for a column in vain
(`Plan.ofSchema_finds_columns`).

That the name is among the columns is not enough to carry this from node to node, as it does not
say how often the name is still needed. What the planner keeps is a count: every name is there at
least as often as there are nodes of that name to be visited yet (`Visit.Covered`). A struct that
gives way to its fields takes its name away once, for itself, and adds the names of its fields, for
these; which of the columns it takes makes no difference to the count.

`Schema.visits` lists the nodes the planner comes to, with its columns at that moment. It is a
record of planning, whether that succeeds or fails (`Plan.ofSchema_recorded`).
-/

namespace NestedRecords

/-- **A visit.** The planner is at a node of the tree. -/
structure Visit where
  /-- The columns that are planned at this moment. -/
  columns : List String
  /-- The columns of the nodes that are left for later, those below this node aside. -/
  pending : List String
  /-- The column of the node. -/
  column : String
  path : String
  type : Tree
  deriving DecidableEq

namespace Visit

/-- Every name is planned as often as it is still needed. -/
def Covered (visit : Visit) : Prop := (visit.column :: visit.pending).Subperm visit.columns

/-- The leaf that a visit finds. -/
def leaf? : Visit → Option Leaf
  | { column, path, type := .scalar datatype, .. } => some { column, path, datatype }
  | _ => none

/-- The column that a visit takes apart. -/
def unraveled? : Visit → Option String
  | { type := .scalar _, .. } => none
  | { column, .. } => some column

theorem Covered.of_perm {visit : Visit} {done : List String}
    (h : visit.columns.Perm (done ++ visit.column :: visit.pending)) : visit.Covered :=
  (List.sublist_append_right done _).subperm.trans h.symm.subperm

theorem Covered.column_mem {visit : Visit} (h : visit.Covered) : visit.column ∈ visit.columns :=
  h.subset List.mem_cons_self

end Visit

namespace Unfolding

mutual

/-- The visits to a type and below, in order. They end where planning fails. -/
def treeVisits (separator : String) (strategy : Strategy) (columns pending : List String)
    (column path : String) : Tree → List Visit
  | .scalar datatype => [{ columns, pending, column, path, type := .scalar datatype }]
  | .list element =>
    { columns, pending, column, path, type := .list element } ::
      treeVisits separator strategy columns pending column path element
  | .struct fields =>
    { columns, pending, column, path, type := .struct fields } ::
      match chooseLead columns column fields (leadsOf separator strategy path) with
      | .error _ => []
      | .ok lead =>
        match replaceColumn column (fieldColumns lead fields) columns with
        | none => []
        | some unnested => fieldVisits separator strategy unnested pending lead path fields

/-- The visits to some fields behind a lead, one field after the other. -/
def fieldVisits (separator : String) (strategy : Strategy) (columns pending : List String)
    (lead path : String) : List (String × Tree) → List Visit
  | [] => []
  | (name, type) :: rest =>
    treeVisits separator strategy columns (fieldColumns lead rest ++ pending) (lead ++ name)
        (joinPath separator [path, name]) type ++
      match ofTree separator strategy columns (lead ++ name) (joinPath separator [path, name])
        type with
      | .error _ => []
      | .ok first => fieldVisits separator strategy first.columns pending lead path rest

end

end Unfolding

/-- The visits of the planner to the nodes of a schema. -/
def Schema.visits (schema : Schema) (strategy : Strategy) : List Visit :=
  Unfolding.fieldVisits schema.separator strategy (schema.fields.map Prod.fst) [] "" ""
    schema.fields

namespace Unfolding

variable {separator : String} {strategy : Strategy} {columns done rest : List String}
  {column : String}

/-! ### Columns as a count -/

/-- Where a name is among some columns, a column of that name gives way to others. -/
theorem replaceColumn_of_mem (h : column ∈ columns) (others : List String) :
    ∃ front back, columns = front ++ column :: back ∧
      replaceColumn column others columns = some (front ++ others ++ back) := by
  obtain ⟨front, back, rfl, hfront⟩ := List.eq_append_cons_of_mem h
  exact ⟨front, back, rfl, replaceColumn_first hfront others⟩

/-- Whichever column of the name this is, the columns around it are the same up to their order. -/
theorem exists_replaceColumn (h : columns.Perm (done ++ column :: rest)) (others : List String) :
    ∃ unnested, replaceColumn column others columns = some unnested ∧
      unnested.Perm (done ++ others ++ rest) := by
  have hmem : column ∈ columns := h.mem_iff.mpr (List.mem_append_right _ List.mem_cons_self)
  obtain ⟨front, back, rfl, hreplaced⟩ := replaceColumn_of_mem hmem others
  refine ⟨front ++ others ++ back, hreplaced, ?_⟩
  have haround : (front ++ back).Perm (done ++ rest) :=
    (List.perm_cons column).mp (List.perm_middle.symm.trans (h.trans List.perm_middle))
  have hbehind : (others ++ (front ++ back)).Perm (others ++ (done ++ rest)) :=
    haround.append_left others
  exact (middle_perm front others back).trans (hbehind.trans (middle_perm done others rest).symm)

/-- A column that cannot be replaced is not there. -/
theorem notMem_of_replaceColumn {others : List String}
    (h : replaceColumn column others columns = none) : column ∉ columns := by
  intro hmem
  obtain ⟨front, back, -, hreplaced⟩ := replaceColumn_of_mem hmem others
  rw [hreplaced] at h
  contradiction

mutual

/-- **Unfolding a type as a count.** Up to their order, the leaf columns take the place of a column
of the name of the type, and all other columns stay. -/
theorem ofTree_perm : ∀ (type : Tree) {columns done rest : List String} {column path : String}
    {unfolding : Unfolding},
    ofTree separator strategy columns column path type = .ok unfolding →
      columns.Perm (done ++ column :: rest) →
      unfolding.columns.Perm (done ++ unfolding.leaves.map Leaf.column ++ rest)
  | .scalar _, _, done, _, _, _, _, h, hcolumns => by
    rw [ofTree] at h
    obtain rfl := Except.ok.inj h
    rw [List.append_assoc done]
    exact hcolumns
  | .list element, _, _, _, _, _, _, h, hcolumns => by
    rw [ofTree] at h
    obtain ⟨inner, hinner, h⟩ := bind_eq_ok_iff.mp h
    have hout := ofTree_perm element hinner hcolumns
    obtain rfl := Except.ok.inj h
    exact hout
  | .struct fields, _, _, _, _, _, _, h, hcolumns => by
    rw [ofTree] at h
    obtain ⟨lead, -, h⟩ := bind_eq_ok_iff.mp h
    obtain ⟨unnested, hunnested, hperm⟩ := exists_replaceColumn hcolumns (fieldColumns lead fields)
    rw [hunnested] at h
    obtain ⟨inner, hinner, h⟩ := bind_eq_ok_iff.mp h
    have hout := ofFields_perm fields hinner hperm
    obtain rfl := Except.ok.inj h
    exact hout

/-- **Unfolding fields as a count.** The leaf columns take the place of the columns of the
fields. -/
theorem ofFields_perm : ∀ (fields : List (String × Tree)) {columns done rest : List String}
    {lead path : String} {unfolding : Unfolding},
    ofFields separator strategy columns lead path fields = .ok unfolding →
      columns.Perm (done ++ fieldColumns lead fields ++ rest) →
      unfolding.columns.Perm (done ++ unfolding.leaves.map Leaf.column ++ rest)
  | [], _, _, _, _, _, _, h, hcolumns => by
    rw [ofFields] at h
    obtain rfl := Except.ok.inj h
    exact hcolumns
  | (name, type) :: fields, _, done, _, _, _, _, h, hcolumns => by
    rw [ofFields] at h
    obtain ⟨first, hfirst, h⟩ := bind_eq_ok_iff.mp h
    obtain ⟨others, hothers, h⟩ := bind_eq_ok_iff.mp h
    rw [fieldColumns_cons_middle] at hcolumns
    have hnext := ofTree_perm type hfirst hcolumns
    rw [← List.append_assoc] at hnext
    have hout := ofFields_perm fields hothers hnext
    obtain rfl := Except.ok.inj h
    rw [List.map_append, ← List.append_assoc]
    exact hout

end

/-! ### Covered visits -/

mutual

/-- **Visits to a type.** When its column and the pending ones are among the columns, all visits to
it and below are covered. -/
theorem treeVisits_covered : ∀ (type : Tree) {columns done pending : List String}
    {column path : String}, columns.Perm (done ++ column :: pending) →
      ∀ visit ∈ treeVisits separator strategy columns pending column path type, visit.Covered
  | .scalar _, _, _, _, _, _, h => by
    rw [treeVisits]
    exact List.forall_mem_singleton.mpr (.of_perm h)
  | .list element, _, _, _, _, _, h => by
    rw [treeVisits]
    exact List.forall_mem_cons.mpr ⟨.of_perm h, treeVisits_covered element h⟩
  | .struct fields, _, _, _, _, _, h => by
    rw [treeVisits]
    refine List.forall_mem_cons.mpr ⟨.of_perm h, ?_⟩
    split
    · exact List.forall_mem_nil _
    · rename_i lead _
      obtain ⟨unnested, hunnested, hperm⟩ := exists_replaceColumn h (fieldColumns lead fields)
      rw [hunnested]
      exact fieldVisits_covered fields hperm

/-- **Visits to fields.** When their columns and the pending ones are among the columns, all visits
to the fields and below are covered. -/
theorem fieldVisits_covered : ∀ (fields : List (String × Tree))
    {columns done pending : List String} {lead path : String},
      columns.Perm (done ++ fieldColumns lead fields ++ pending) →
      ∀ visit ∈ fieldVisits separator strategy columns pending lead path fields, visit.Covered
  | [], _, _, _, _, _, _ => by
    rw [fieldVisits]
    exact List.forall_mem_nil _
  | (name, type) :: fields, _, done, _, _, _, h => by
    rw [fieldColumns_cons_middle] at h
    rw [fieldVisits]
    refine List.forall_mem_append.mpr ⟨treeVisits_covered type h, ?_⟩
    split
    · exact List.forall_mem_nil _
    · rename_i first hfirst
      -- the leaves of the first field are done, and the count goes on behind them
      have hnext := ofTree_perm type hfirst h
      rw [← List.append_assoc] at hnext
      exact fieldVisits_covered fields hnext

end

/-! ### What visits tell of planning -/

/-- **Visits as a record of planning.** Planning fails at the last visit, by a collision or for want
of the column there. Where it succeeds, the visits find its leaves and take apart the columns of its
steps, in order. -/
def Recorded (visits : List Visit) : Except PlanError Unfolding → Prop :=
  Ends
    (fun error => ∃ before visit, visits = before ++ [visit] ∧
      (error = .duplicateColumns visit.column ∨
        error = .absentColumn visit.column ∧ visit.column ∉ visit.columns))
    (fun unfolding => unfolding.leaves = visits.filterMap Visit.leaf? ∧
      unfolding.steps.map Step.column = visits.filterMap Visit.unraveled?)

namespace Recorded

variable {visits more : List Visit} {planned : Except PlanError Unfolding}

/-- A visit to a list or a struct makes one step, in front of those that are made below. -/
theorem cons {visit : Visit} {step : Step} (h : Recorded visits planned)
    (hleaf : visit.leaf? = none) (hstep : visit.unraveled? = some step.column) :
    Recorded (visit :: visits)
      (planned >>= fun inner => .ok { inner with steps := step :: inner.steps }) := by
  cases h with
  | error herror =>
    obtain ⟨before, last, rfl, hlast⟩ := herror
    exact .error ⟨visit :: before, last, rfl, hlast⟩
  | ok hinner =>
    refine .ok ⟨?_, ?_⟩
    · rw [List.filterMap_cons_none hleaf]
      exact hinner.1
    · rw [List.filterMap_cons_some hstep, List.map_cons, hinner.2]

/-- The visits to one field are followed by those to the others. -/
theorem append {first : Unfolding} (hfirst : Recorded visits (.ok first))
    (h : Recorded more planned) :
    Recorded (visits ++ more)
      (planned >>= fun others => .ok { columns := others.columns
                                       steps := first.steps ++ others.steps
                                       leaves := first.leaves ++ others.leaves }) := by
  obtain ⟨hleaves, hsteps⟩ := hfirst.of_eq_ok rfl
  cases h with
  | error herror =>
    obtain ⟨before, last, rfl, hlast⟩ := herror
    exact .error ⟨visits ++ before, last, (List.append_assoc _ _ _).symm, hlast⟩
  | ok hothers =>
    refine .ok ⟨?_, ?_⟩
    · rw [List.filterMap_append, hleaves, hothers.1]
    · rw [List.filterMap_append, List.map_append, hsteps, hothers.2]

end Recorded

/-- Where no lead can be chosen there is a collision. -/
theorem eq_duplicateColumns_of_chooseLead {fields : Fields} {leads : List String}
    {error : PlanError} (h : chooseLead columns column fields leads = .error error) :
    error = .duplicateColumns column := by
  unfold chooseLead at h
  split at h
  · contradiction
  · exact (Except.error.inj h).symm

mutual

/-- The visits to a type record how its column is unfolded. -/
theorem treeVisits_recorded : ∀ (type : Tree) (columns pending : List String)
    (column path : String),
    Recorded (treeVisits separator strategy columns pending column path type)
      (ofTree separator strategy columns column path type)
  | .scalar _, _, _, _, _ => by
    rw [ofTree, treeVisits]
    exact .ok ⟨rfl, rfl⟩
  | .list element, columns, pending, column, path => by
    rw [ofTree, treeVisits]
    exact (treeVisits_recorded element columns pending column path).cons rfl rfl
  | .struct fields, columns, pending, column, path => by
    rw [ofTree, treeVisits]
    cases hlead : chooseLead columns column fields (leadsOf separator strategy path) with
    | error error => exact .error ⟨[], _, rfl, .inl (eq_duplicateColumns_of_chooseLead hlead)⟩
    | ok lead =>
      simp only [ok_bind]
      cases hunnested : replaceColumn column (fieldColumns lead fields) columns with
      | none => exact .error ⟨[], _, rfl, .inr ⟨rfl, notMem_of_replaceColumn hunnested⟩⟩
      | some unnested =>
        exact (fieldVisits_recorded fields unnested pending lead path).cons rfl rfl

/-- The visits to some fields record how their columns are unfolded. -/
theorem fieldVisits_recorded : ∀ (fields : List (String × Tree)) (columns pending : List String)
    (lead path : String),
    Recorded (fieldVisits separator strategy columns pending lead path fields)
      (ofFields separator strategy columns lead path fields)
  | [], _, _, _, _ => by
    rw [ofFields, fieldVisits]
    exact .ok ⟨rfl, rfl⟩
  | (name, type) :: fields, columns, pending, lead, path => by
    rw [ofFields, fieldVisits]
    have hfirst := treeVisits_recorded type columns (fieldColumns lead fields ++ pending)
      (lead ++ name) (joinPath separator [path, name])
    cases hplanned : ofTree separator strategy columns (lead ++ name)
        (joinPath separator [path, name]) type with
    | error error =>
      rw [hplanned] at hfirst
      rw [List.append_nil]
      exact hfirst
    | ok first =>
      rw [hplanned] at hfirst
      exact hfirst.append (fieldVisits_recorded fields first.columns pending lead path)

end

/-- Naming leaf columns fails only at a path that is not bound. -/
theorem newNames_ends (bindings : List (String × String)) (leaves : List Leaf) :
    Ends
      (fun error => ∃ leaf ∈ leaves, bindings.lookup leaf.path = none ∧
        error = .unboundPath leaf.path)
      (fun _ => True) (newNames bindings leaves) := by
  refine Ends.foldlM (fun map leaf hmem _ => ?_) trivial
  split
  · rename_i hunbound
    exact .error ⟨leaf, hmem, hunbound, rfl⟩
  · exact .ok trivial

end Unfolding

/-! ### Messages -/

/-- A text in three parts begins with the letter that its first part begins with. -/
private theorem head?_of_lead {lead : String} {letter : Char}
    (h : lead.toList.head? = some letter) (name tail : String) :
    (lead ++ name ++ tail).toList.head? = some letter := by
  rw [String.toList_append, String.toList_append, List.head?_append, List.head?_append, h]
  rfl

/-- The letter that the messages of errors of one kind begin with. -/
private def PlanError.initial : PlanError → Char
  | duplicateColumns _ => 'U'
  | absentColumn _ => 'T'
  | unboundPath _ => 'N'

private theorem PlanError.head?_message (error : PlanError) :
    error.message.toList.head? = some error.initial := by
  have hduplicate : "Unnesting \"".toList.head? = some 'U' := by decide +kernel
  have habsent : "This should not happen: ".toList.head? = some 'T' := by decide +kernel
  have hunbound : "No column bound to json path \"".toList.head? = some 'N' := by decide +kernel
  cases error with
  | duplicateColumns => exact head?_of_lead hduplicate _ _
  | absentColumn => exact head?_of_lead habsent _ _
  | unboundPath => exact head?_of_lead hunbound _ _

/-- A message tells its error. -/
theorem PlanError.message_injective : Function.Injective PlanError.message := by
  intro error other h
  have hfirst : error.initial = other.initial := by
    rw [← Option.some.injEq, ← head?_message, ← head?_message, h]
  have hname : ∀ {lead tail name name' : String}, lead ++ name ++ tail = lead ++ name' ++ tail →
      name = name' :=
    fun h => (String.append_right_inj _).mp ((String.append_left_inj _).mp h)
  -- errors of two kinds begin differently, and those of one kind differ in the name
  cases error <;> cases other <;> simp only [initial, Char.reduceEq] at hfirst
  · exact congrArg duplicateColumns (hname h)
  · exact congrArg absentColumn (hname h)
  · exact congrArg unboundPath (hname h)

/-! ### Schemas put together by hand -/

/-- All visits are covered, whatever the names in the schema are. -/
theorem Schema.visits_covered (schema : Schema) (strategy : Strategy) :
    ∀ visit ∈ schema.visits strategy, visit.Covered := by
  have hroot : (schema.fields.map Prod.fst).Perm
      ([] ++ Unfolding.fieldColumns "" schema.fields ++ []) := by
    rw [fieldColumns_root]
  exact Unfolding.fieldVisits_covered schema.fields hroot

/-- **Planning any schema.** Planning fails by a collision at the last visit, or at a leaf that is
visited and whose path is not bound. A plan has the leaves that are visited, and a step for every
other visit. -/
theorem Plan.ofSchema_recorded (schema : Schema) (strategy : Strategy) :
    Ends
      (fun error =>
        (∃ before visit, schema.visits strategy = before ++ [visit] ∧
          error = .duplicateColumns visit.column) ∨
        ∃ leaf ∈ (schema.visits strategy).filterMap Visit.leaf?,
          schema.bindings.lookup leaf.path = none ∧ error = .unboundPath leaf.path)
      (fun plan => plan.leaves = (schema.visits strategy).filterMap Visit.leaf? ∧
        plan.steps.map Step.column = (schema.visits strategy).filterMap Visit.unraveled?)
      (Plan.ofSchema schema strategy) := by
  have hrecorded : Unfolding.Recorded (schema.visits strategy)
      (Unfolding.ofFields schema.separator strategy (schema.fields.map Prod.fst) "" ""
        schema.fields) :=
    Unfolding.fieldVisits_recorded schema.fields _ [] "" ""
  refine (hrecorded.mono ?collision fun _ h => h).bind fun unfolding h => ?naming
  case collision =>
    rintro error ⟨before, visit, hvisits, hcollision | ⟨-, habsent⟩⟩
    · exact .inl ⟨before, visit, hvisits, hcollision⟩
    · have hmem : visit ∈ schema.visits strategy := hvisits ▸ List.mem_concat_self
      exact absurd (schema.visits_covered strategy visit hmem).column_mem habsent
  case naming =>
    rw [← h.1]
    have hnames := Unfolding.newNames_ends schema.bindings unfolding.leaves
    exact (hnames.mono (fun _ => .inr) fun _ h => h).bind fun _ _ => .ok ⟨rfl, h.2⟩

/-- **No column is looked for in vain.** Whatever the names and the bindings of a schema are, and
whatever its separator is, the column of a node is among the planned ones when the node is visited,
and planning never fails with the message that a column is missing from them. -/
theorem Plan.ofSchema_finds_columns (schema : Schema) (strategy : Strategy) :
    (∀ visit ∈ schema.visits strategy, visit.column ∈ visit.columns) ∧
      ∀ error, Plan.ofSchema schema strategy = .error error → ∀ column,
        error.message ≠
          "This should not happen: " ++ column ++ " missing from planned columns" := by
  refine ⟨fun visit hmem => (schema.visits_covered strategy visit hmem).column_mem, ?_⟩
  intro error herror column hmessage
  obtain rfl : error = .absentColumn column := PlanError.message_injective hmessage
  rcases (Plan.ofSchema_recorded schema strategy).of_eq_error herror with
    ⟨_, _, -, hcollision⟩ | ⟨_, -, -, hunbound⟩
  · contradiction
  · contradiction

/-- Structs and fields of one name, and no path that is bound. -/
def Schema.namesakes : Schema where
  fields := [
    ("a", .struct [("a", .list (.struct [("x", .scalar .int8)])), ("a", .scalar .utf8)]),
    ("a", .struct [("y", .scalar .int8)])]
  bindings := []
  columns := []
  datatypes := []
  separator := ""

/-- The last struct is visited when a leaf in front of it has its name. The column of the leaf gives
way, and that of the struct is left to the leaf. -/
theorem Plan.ofSchema_finds_columns_namesakes :
    let visit : Visit :=
      { columns := ["x", "a", "a"], pending := [], column := "a", path := "a"
        type := .struct [("y", .scalar .int8)] }
    (visit ∈ Schema.namesakes.visits .deferred ∧ visit.column ∈ visit.columns) ∧
      Plan.ofSchema Schema.namesakes .deferred = .error (.unboundPath "aax") ∧
      (PlanError.unboundPath "aax").message ≠
        "This should not happen: " ++ "a" ++ " missing from planned columns" := by
  intro visit
  have hvisit : visit ∈ Schema.namesakes.visits .deferred := by decide +kernel
  have herror : Plan.ofSchema Schema.namesakes .deferred = .error (.unboundPath "aax") := rfl
  obtain ⟨hcolumns, hmessage⟩ := Plan.ofSchema_finds_columns Schema.namesakes .deferred
  exact ⟨⟨hvisit, hcolumns visit hvisit⟩, herror, hmessage _ herror "a"⟩

end NestedRecords
