import NestedRecords.Plan.Planning
import NestedRecords.Proofs.Frame.Renaming
import NestedRecords.Proofs.Schema.Rejoining

/-!
# Planning under another separator

A planner makes the names of columns from json paths, and then asks of these names whether they are
taken and where they stand. What it asks is whether names are equal. So under two separators that
delimit, it makes the same choices throughout: the plans have the same steps, on columns of rejoined
names, or both of them fail (`Plan.ofSchema_paired`).
-/

namespace NestedRecords

open List Relator

variable {separator separator' : String}

/-! ### What corresponds to each other -/

/-- Leaves that differ in the separator in their columns and paths alone. -/
structure Leaf.Alike (separator separator' : String) (leaf leaf' : Leaf) : Prop where
  column : Rejoined separator separator' leaf.column leaf'.column
  path : Rejoined separator separator' leaf.path leaf'.path

/-- Errors of one cause, about columns and paths that differ in the separator alone. -/
inductive PlanError.Alike (separator separator' : String) : PlanError → PlanError → Prop
  | duplicateColumns {column column' : String} (h : Rejoined separator separator' column column') :
      Alike separator separator' (.duplicateColumns column) (.duplicateColumns column')
  | absentColumn {column column' : String} (h : Rejoined separator separator' column column') :
      Alike separator separator' (.absentColumn column) (.absentColumn column')
  | unboundPath {path path' : String} (h : Rejoined separator separator' path path') :
      Alike separator separator' (.unboundPath path) (.unboundPath path')

/-- Unfoldings that differ in the separator in columns and paths alone. -/
structure Unfolding.Alike (separator separator' : String) (unfolding unfolding' : Unfolding) :
    Prop where
  columns : Forall₂ (Rejoined separator separator') unfolding.columns unfolding'.columns
  steps : Forall₂ (Step.Alike (Rejoined separator separator')) unfolding.steps unfolding'.steps
  leaves : Forall₂ (Leaf.Alike separator separator') unfolding.leaves unfolding'.leaves

/-- Leads that make rejoined columns of the same names. -/
def LeadsAlike (separator separator' lead lead' : String) : Prop :=
  ∀ name, Spelled name → Rejoined separator separator' (lead ++ name) (lead' ++ name)

namespace Unfolding

variable {columns columns' : List String} {column column' lead lead' : String}

/-! ### Choosing columns -/

theorem leadsAlike_empty : LeadsAlike separator separator' "" "" := by
  intro name hname
  rw [String.empty_append]
  exact .of_spelled hname

theorem leadsAlike_pathLead {scope : List String} (hscope : ∀ name ∈ scope, Spelled name) :
    LeadsAlike separator separator' (pathLead separator (joinPath separator scope))
      (pathLead separator' (joinPath separator' scope)) := by
  intro name hname
  by_cases hnone : scope.filter (· ≠ "") = []
  · rw [joinPath_eq_empty_iff.mpr hnone, joinPath_eq_empty_iff.mpr hnone]
    exact leadsAlike_empty name hname
  · rw [pathLead, pathLead, if_neg (mt joinPath_eq_empty_iff.mp hnone),
      if_neg (mt joinPath_eq_empty_iff.mp hnone)]
    exact (Rejoined.joinPath hscope).concat hname

theorem leadsAlike_leadsOf (strategy : Strategy) {scope : List String}
    (hscope : ∀ name ∈ scope, Spelled name) :
    Forall₂ (LeadsAlike separator separator')
      (leadsOf separator strategy (joinPath separator scope))
      (leadsOf separator' strategy (joinPath separator' scope)) := by
  cases strategy with
  | eager => exact .cons (leadsAlike_pathLead hscope) .nil
  | deferred => exact .cons leadsAlike_empty (.cons (leadsAlike_pathLead hscope) .nil)

theorem fieldColumns_alike (hlead : LeadsAlike separator separator' lead lead') {fields : Fields}
    (hfields : ∀ name ∈ fields.map Prod.fst, Spelled name) :
    Forall₂ (Rejoined separator separator') (fieldColumns lead fields)
      (fieldColumns lead' fields) := by
  exact forall₂_map_self fun field hfield => hlead _ (hfields _ (List.mem_map_of_mem hfield))

/-- Leads that are alike collide with columns that are there, or do not. -/
theorem collides_eq (hK : BiUnique (Rejoined separator separator'))
    (hcolumns : Forall₂ (Rejoined separator separator') columns columns')
    (hcolumn : Rejoined separator separator' column column')
    (hlead : LeadsAlike separator separator' lead lead') {fields : Fields}
    (hfields : ∀ name ∈ fields.map Prod.fst, Spelled name) :
    collides columns column lead fields = collides columns' column' lead' fields := by
  rw [Bool.eq_iff_iff, collides, collides, fieldColumns, fieldColumns, List.any_map, List.any_map,
    List.any_eq_true, List.any_eq_true]
  refine exists_congr fun field => and_congr_right fun hfield => ?_
  have hname := hlead _ (hfields _ (List.mem_map_of_mem hfield))
  have hsame : lead ++ field.1 = column ↔ lead' ++ field.1 = column' := rel_eq hK hname hcolumn
  have hmem : lead ++ field.1 ∈ columns ↔ lead' ++ field.1 ∈ columns' := rel_mem hK hname hcolumns
  simp only [Function.comp_apply, decide_eq_true_eq, List.mem_filter, hmem, not_congr hsame, ne_eq]

theorem chooseLead_paired (hK : BiUnique (Rejoined separator separator'))
    (hcolumns : Forall₂ (Rejoined separator separator') columns columns')
    (hcolumn : Rejoined separator separator' column column') {fields : Fields}
    (hfields : ∀ name ∈ fields.map Prod.fst, Spelled name) {leads leads' : List String}
    (hleads : Forall₂ (LeadsAlike separator separator') leads leads') :
    Paired (PlanError.Alike separator separator') (LeadsAlike separator separator')
      (chooseLead columns column fields leads) (chooseLead columns' column' fields leads') := by
  have hfree : ∀ lead lead', LeadsAlike separator separator' lead lead' →
      (!collides columns column lead fields) = !collides columns' column' lead' fields :=
    fun _ _ hlead => congrArg Bool.not (collides_eq hK hcolumns hcolumn hlead hfields)
  unfold chooseLead
  rcases find?_paired hfree hleads with ⟨hnone, hnone'⟩ | ⟨lead, lead', hsome, hsome', hlead⟩
  · rw [hnone, hnone']
    exact .error (.duplicateColumns hcolumn)
  · rw [hsome, hsome']
    exact .ok hlead

/-- Columns give way to others in the same place. -/
theorem replaceColumn_alike (hK : BiUnique (Rejoined separator separator'))
    (hcolumn : Rejoined separator separator' column column') {others others' : List String}
    (hothers : Forall₂ (Rejoined separator separator') others others')
    (hcolumns : Forall₂ (Rejoined separator separator') columns columns') :
    (replaceColumn column others columns = none ∧ replaceColumn column' others' columns' = none) ∨
      ∃ replaced replaced', replaceColumn column others columns = some replaced ∧
        replaceColumn column' others' columns' = some replaced' ∧
        Forall₂ (Rejoined separator separator') replaced replaced' := by
  induction hcolumns with
  | nil => exact .inl ⟨rfl, rfl⟩
  | @cons first first' rest rest' hfirst hrest ih =>
    have hiff : first = column ↔ first' = column' := rel_eq hK hfirst hcolumn
    by_cases heq : first = column
    · rw [replaceColumn, replaceColumn, if_pos heq, if_pos (hiff.mp heq)]
      exact .inr ⟨_, _, rfl, rfl, rel_append hothers hrest⟩
    · rw [replaceColumn, replaceColumn, if_neg heq, if_neg (mt hiff.mpr heq)]
      rcases ih with ⟨hnone, hnone'⟩ | ⟨replaced, replaced', hsome, hsome', hreplaced⟩
      · rw [hnone, hnone']
        exact .inl ⟨rfl, rfl⟩
      · rw [hsome, hsome']
        exact .inr ⟨_, _, rfl, rfl, .cons hfirst hreplaced⟩

/-! ### Trees -/

mutual

/-- Taking apart the column of a type that is read from the path along some names. -/
theorem ofTree_paired (hK : BiUnique (Rejoined separator separator')) (strategy : Strategy) :
    ∀ (type : Tree) {columns columns' : List String} {column column' : String}
      {scope : List String}, type.NamesSpelled → (∀ name ∈ scope, Spelled name) →
      Forall₂ (Rejoined separator separator') columns columns' →
      Rejoined separator separator' column column' →
      Paired (PlanError.Alike separator separator') (Unfolding.Alike separator separator')
        (ofTree separator strategy columns column (joinPath separator scope) type)
        (ofTree separator' strategy columns' column' (joinPath separator' scope) type)
  | .scalar datatype, _, _, _, _, _, _, hscope, hcolumns, hcolumn => by
    rw [ofTree, ofTree]
    exact .ok ⟨hcolumns, .nil, .cons ⟨hcolumn, .joinPath hscope⟩ .nil⟩
  | .list element, _, _, _, _, _, htype, hscope, hcolumns, hcolumn => by
    rw [ofTree, ofTree]
    refine (ofTree_paired hK strategy element htype hscope hcolumns hcolumn).bind
      fun _ _ hinner => .ok ⟨hinner.columns, .cons ?_ hinner.steps, hinner.leaves⟩
    exact .explode hcolumn
  | .struct fields, _, _, _, _, _, htype, hscope, hcolumns, hcolumn => by
    have hfields := Tree.spelled_of_mem_map_fst htype
    rw [ofTree, ofTree]
    refine (chooseLead_paired hK hcolumns hcolumn hfields
      (leadsAlike_leadsOf strategy hscope)).bind fun lead lead' hlead => ?_
    rcases replaceColumn_alike hK hcolumn (fieldColumns_alike hlead hfields) hcolumns with
      ⟨hnone, hnone'⟩ | ⟨replaced, replaced', hsome, hsome', hreplaced⟩
    · rw [hnone, hnone']
      exact .error (.absentColumn hcolumn)
    · rw [hsome, hsome']
      refine (ofFields_paired hK strategy fields htype hscope hreplaced hlead).bind
        fun _ _ hinner => .ok ⟨hinner.columns, .cons ?_ hinner.steps, hinner.leaves⟩
      exact .unnest hcolumn fun name hname => hlead name (hfields name hname)

/-- Taking apart the columns of some fields behind leads that are alike. -/
theorem ofFields_paired (hK : BiUnique (Rejoined separator separator')) (strategy : Strategy) :
    ∀ (fields : List (String × Tree)) {columns columns' : List String} {lead lead' : String}
      {scope : List String}, Tree.FieldNamesSpelled fields → (∀ name ∈ scope, Spelled name) →
      Forall₂ (Rejoined separator separator') columns columns' →
      LeadsAlike separator separator' lead lead' →
      Paired (PlanError.Alike separator separator') (Unfolding.Alike separator separator')
        (ofFields separator strategy columns lead (joinPath separator scope) fields)
        (ofFields separator' strategy columns' lead' (joinPath separator' scope) fields)
  | [], _, _, _, _, _, _, _, hcolumns, _ => by
    rw [ofFields, ofFields]
    exact .ok ⟨hcolumns, .nil, .nil⟩
  | (name, type) :: rest, _, _, _, _, scope, ⟨hname, htype, hrest⟩, hscope, hcolumns, hlead => by
    have hbelow : ∀ n ∈ scope ++ [name], Spelled n :=
      List.forall_mem_append.mpr ⟨hscope, List.forall_mem_singleton.mpr hname⟩
    rw [ofFields, ofFields, joinPath_concat, joinPath_concat]
    refine (ofTree_paired hK strategy type htype hbelow hcolumns (hlead name hname)).bind
      fun _ _ hfirst => ?_
    refine (ofFields_paired hK strategy rest hrest hscope hfirst.columns hlead).bind
      fun _ _ hothers => .ok ⟨hothers.columns, ?_, ?_⟩
    · exact rel_append hfirst.steps hothers.steps
    · exact rel_append hfirst.leaves hothers.leaves

end

/-- A path of a leaf is bound under both separators or under none. -/
theorem newNames_paired (hK : BiUnique (Rejoined separator separator'))
    {bindings bindings' : List (String × String)}
    (hbindings : Forall₂ (fun binding binding' =>
      Rejoined separator separator' binding.1 binding'.1 ∧ binding.2 = binding'.2)
      bindings bindings')
    {leaves leaves' : List Leaf}
    (hleaves : Forall₂ (Leaf.Alike separator separator') leaves leaves') :
    Paired (PlanError.Alike separator separator') (fun _ _ => True) (newNames bindings leaves)
      (newNames bindings' leaves') := by
  refine Paired.foldlM (fun map map' leaf leaf' _ hleaf => ?_) hleaves trivial
  rw [lookup_eq_of_forall₂ hK hbindings hleaf.path]
  split
  · exact .error (.unboundPath hleaf.path)
  · exact .ok trivial

end Unfolding

/-! ### Plans -/

/-- Plans that differ in the separator in columns and paths alone. The names that the leaf columns
get in the end are not looked at. -/
structure Plan.Alike (separator separator' : String) (plan plan' : Plan) : Prop where
  fields : plan.fields = plan'.fields
  steps : Forall₂ (Step.Alike (Rejoined separator separator')) plan.steps plan'.steps
  leaves : Forall₂ (Leaf.Alike separator separator') plan.leaves plan'.leaves

/-- **Planning under two separators.** -/
theorem Plan.ofSchema_paired {schema schema' : Schema} (hs : Delimits schema.separator)
    (hs' : Delimits schema'.separator)
    (h : schema.Alike schema.separator schema'.separator schema')
    (hspelled : Tree.FieldNamesSpelled schema.fields) (strategy : Strategy) :
    Paired (PlanError.Alike schema.separator schema'.separator)
      (Plan.Alike schema.separator schema'.separator) (Plan.ofSchema schema strategy)
      (Plan.ofSchema schema' strategy) := by
  have hK := Rejoined.biUnique hs hs'
  have hroot : Forall₂ (Rejoined schema.separator schema'.separator)
      (schema.fields.map Prod.fst) (schema.fields.map Prod.fst) :=
    forall₂_same.mpr fun name hname => .of_spelled (Tree.spelled_of_mem_map_fst hspelled name hname)
  have hscope : ∀ name ∈ ([] : List String), Spelled name := nofun
  have hunfold := Unfolding.ofFields_paired hK strategy schema.fields hspelled hscope hroot
    Unfolding.leadsAlike_empty
  unfold Plan.ofSchema
  rw [← h.fields]
  refine hunfold.bind fun unfolding unfolding' halike => ?_
  refine (Unfolding.newNames_paired hK h.bindings halike.leaves).bind fun _ _ _ => ?_
  exact .ok ⟨rfl, halike.steps, halike.leaves⟩

end NestedRecords
