import NestedRecords.Proofs.Plan.Unfolding
import NestedRecords.Proofs.Schema.Coherence

/-!
# Plans of compiled schemas

Planning has three ways to fail, and a schema that was read from a text leaves only one of them:
the paths of its leaves are those it binds, and the columns its planner takes apart are there.
`Plan.Executable` is what a plan is worth when planning succeeds. It is stated for coherent
schemas, wherever they come from.
-/

namespace NestedRecords

/-! ### New names for leaf columns -/

/-- A renaming in which a leaf column gets a name, if that is not its name already. -/
private def noteName (map : List (String × String)) (leaf : Leaf) (name : String) :
    List (String × String) :=
  if name = leaf.column then map else Assoc.insert leaf.column name map

private theorem lookup_noteName {map : List (String × String)} {leaf : Leaf} {name column : String}
    (h : column ≠ leaf.column) : (noteName map leaf name).lookup column = map.lookup column := by
  unfold noteName
  split
  · rfl
  · rw [Assoc.lookup_insert, if_neg h]

private theorem renamed_noteName {map : List (String × String)} {leaf : Leaf} {name : String}
    (h : map.lookup leaf.column = none) : renamed (noteName map leaf name) leaf.column = name := by
  unfold noteName renamed
  split
  · rename_i heq
    rw [h, heq]
    rfl
  · rw [Assoc.lookup_insert, if_pos rfl]
    rfl

/-- Noting the new names of some leaf columns one after the other, behind those of other columns,
which stay as they are. -/
private theorem foldlM_noteName {bindings : List (String × String)}
    {f : List (String × String) → Leaf → Except PlanError (List (String × String))}
    (hf : ∀ map leaf name, bindings.lookup leaf.path = some name →
      f map leaf = .ok (noteName map leaf name))
    (leaves : List Leaf) : ∀ (names : List String) (map : List (String × String)),
      (leaves.map Leaf.column).Nodup → (∀ leaf ∈ leaves, map.lookup leaf.column = none) →
      leaves.map (fun leaf => bindings.lookup leaf.path) = names.map some →
      ∃ mapping, leaves.foldlM f map = .ok mapping ∧
        (∀ column ∉ leaves.map Leaf.column, mapping.lookup column = map.lookup column) ∧
        (leaves.map Leaf.column).map (renamed mapping) = names := by
  induction leaves with
  | nil =>
    intro names map _ _ hbound
    have hnames : names = [] := List.map_eq_nil_iff.mp hbound.symm
    exact ⟨map, rfl, fun _ _ => rfl, hnames.symm⟩
  | cons leaf leaves ih =>
    intro names map hdistinct hfree hbound
    obtain ⟨hleaf, hdistinct⟩ := List.nodup_cons.mp hdistinct
    obtain ⟨name, names, rfl⟩ : ∃ name rest, names = name :: rest := by
      cases names with
      | nil => contradiction
      | cons name rest => exact ⟨name, rest, rfl⟩
    obtain ⟨hname, hbound⟩ := List.cons.inj hbound
    -- the leaves behind have other columns, so the name that is noted here is theirs to keep
    have hnext : ∀ other ∈ leaves, (noteName map leaf name).lookup other.column = none := by
      intro other hmem
      have hin : other.column ∈ leaves.map Leaf.column := List.mem_map_of_mem hmem
      rw [lookup_noteName fun heq => hleaf (heq ▸ hin)]
      exact hfree other (List.mem_cons_of_mem _ hmem)
    obtain ⟨mapping, hrun, hkeep, hmapping⟩ := ih names _ hdistinct hnext hbound
    refine ⟨mapping, ?_, ?_, ?_⟩
    · rw [List.foldlM_cons, hf map leaf name hname, ok_bind]
      exact hrun
    · intro column hcolumn
      rw [List.map_cons, List.mem_cons, not_or] at hcolumn
      rw [hkeep column hcolumn.2, lookup_noteName hcolumn.1]
    · have hhead : renamed mapping leaf.column = name := by
        rw [renamed, hkeep _ hleaf]
        exact renamed_noteName (hfree leaf List.mem_cons_self)
      rw [List.map_cons, List.map_cons, hhead, hmapping]

/-- **Renaming leaves.** Where every path is bound, planning finds a renaming that gives each leaf
column the name its path is bound to, and no other column a name. -/
theorem Unfolding.newNames_eq_ok {bindings : List (String × String)} {leaves : List Leaf}
    {names : List String} (hdistinct : (leaves.map Leaf.column).Nodup)
    (hbound : leaves.map (fun leaf => bindings.lookup leaf.path) = names.map some) :
    ∃ mapping, newNames bindings leaves = .ok mapping ∧
      (∀ column ∉ leaves.map Leaf.column, mapping.lookup column = none) ∧
      (leaves.map Leaf.column).map (renamed mapping) = names := by
  unfold newNames
  exact foldlM_noteName (fun _ _ _ h => by rw [h]; rfl) leaves names [] hdistinct
    (fun _ _ => rfl) hbound

/-! ### Plans -/

/-- **Executable plans.** The steps unravel the fields of the schema into the leaf columns, the
leaves are those of its tree, and the renaming gives them the names of its columns. -/
structure Plan.Executable (schema : Schema) (plan : Plan) : Prop where
  fields : plan.fields = schema.fields
  select : plan.select = schema.columns
  unravels : Unravels [] schema.fields plan.steps (plan.leaves.map Leaf.column)
  distinct : (plan.leaves.map Leaf.column).Nodup
  leaves : plan.leaves.map (fun leaf => (leaf.path, leaf.datatype)) =
    Tree.fieldLeaves schema.separator [] schema.fields
  renames : (plan.leaves.map Leaf.column).map (renamed plan.rename) = schema.columns

namespace Schema.Coherent

variable {schema : Schema} {strategy : Strategy} {unfolding : Unfolding}

/-- The entries of a record are unfolded, or there is a collision. -/
theorem ofFields_ends (h : schema.Coherent) (strategy : Strategy) :
    Ends Unfolding.IsCollision
      (Unfolding.Unfolds [] [] (leadFields "" schema.fields)
        (Tree.fieldLeaves schema.separator [] schema.fields))
      (Unfolding.ofFields schema.separator strategy (schema.fields.map Prod.fst) "" ""
        schema.fields) := by
  obtain ⟨hsiblings, hnames⟩ := h.names_distinct
  -- the fields of the record stand behind an empty lead, and nothing is done yet
  rw [← fieldColumns_root] at hsiblings ⊢
  exact Unfolding.ofFields_ends schema.fields "" [] hsiblings hnames

/-- Once they are unfolded, the leaf columns can be renamed to the columns of the schema. -/
theorem newNames_eq_ok (h : schema.Coherent)
    (hunfolds : Unfolding.Unfolds [] [] (leadFields "" schema.fields)
      (Tree.fieldLeaves schema.separator [] schema.fields) unfolding) :
    (unfolding.leaves.map Leaf.column).Nodup ∧
      ∃ mapping, Unfolding.newNames schema.bindings unfolding.leaves = .ok mapping ∧
        (unfolding.leaves.map Leaf.column).map (renamed mapping) = schema.columns := by
  have hdistinct : (unfolding.leaves.map Leaf.column).Nodup := by
    simpa [hunfolds.columns] using hunfolds.distinct
  have hbound : unfolding.leaves.map (fun leaf => schema.bindings.lookup leaf.path) =
      schema.columns.map some := by
    rw [← h.lookup_leaves, ← hunfolds.leaves, List.map_map]
    rfl
  obtain ⟨mapping, hmapping, -, hrenames⟩ := Unfolding.newNames_eq_ok hdistinct hbound
  exact ⟨hdistinct, mapping, hmapping, hrenames⟩

/-- There is a plan as soon as the entries of a record can be unfolded. -/
theorem exists_ofSchema (h : schema.Coherent)
    (hunfolding : Unfolding.ofFields schema.separator strategy (schema.fields.map Prod.fst) "" ""
      schema.fields = .ok unfolding) : ∃ plan, Plan.ofSchema schema strategy = .ok plan := by
  obtain ⟨-, mapping, hmapping, -⟩ :=
    h.newNames_eq_ok ((h.ofFields_ends strategy).of_eq_ok hunfolding)
  rw [Plan.ofSchema, hunfolding, ok_bind, hmapping, ok_bind]
  exact ⟨_, rfl⟩

end Schema.Coherent

/-- **Planning a coherent schema.** The plan is executable, or there is a collision. -/
theorem Plan.ofSchema_ends {schema : Schema} (h : schema.Coherent) (strategy : Strategy) :
    Ends Unfolding.IsCollision (Plan.Executable schema) (Plan.ofSchema schema strategy) := by
  refine (h.ofFields_ends strategy).bind fun unfolding hunfolds => ?_
  obtain ⟨hdistinct, mapping, hmapping, hrenames⟩ := h.newNames_eq_ok hunfolds
  have hunravels : Unravels [] schema.fields unfolding.steps
      (unfolding.leaves.map Leaf.column) := by
    simpa [leadFields] using hunfolds.unravels rfl (.nil _)
  rw [hmapping]
  exact .ok ⟨rfl, rfl, hunravels, hdistinct, hunfolds.leaves, hrenames⟩

/-- **Plans of compiled schemas.** Planning fails only where a struct has no names left for its
fields. Otherwise the steps of the plan can be replayed on the names of the fields down to the
leaf columns; the leaves have the paths that are bound and the datatypes of the schema, in order;
and the renaming makes of the leaf columns the output columns, which are distinct. -/
theorem Plan.ofSchema_collides_or_replays {source : Text} {options : CompileOptions}
    {schema : Schema} (h : compile source options = .ok schema) (strategy : Strategy) :
    (∃ column, Plan.ofSchema schema strategy = .error (.duplicateColumns column)) ∨
      ∃ plan, Plan.ofSchema schema strategy = .ok plan ∧
        plan.steps.foldlM Step.replay? (schema.fields.map Prod.fst) =
          some (plan.leaves.map Leaf.column) ∧
        plan.leaves.map Leaf.path = schema.bindings.map Prod.fst ∧
        plan.leaves.map Leaf.datatype = schema.datatypes ∧
        (plan.leaves.map Leaf.column).map (renamed plan.rename) = plan.select ∧
        plan.select.Nodup := by
  have hcoherent : schema.Coherent := coherent_of_compile h
  cases hplan : Plan.ofSchema schema strategy with
  | error error =>
    obtain ⟨column, rfl⟩ := (Plan.ofSchema_ends hcoherent strategy).of_eq_error hplan
    exact .inl ⟨column, rfl⟩
  | ok plan =>
    have hexecutable := (Plan.ofSchema_ends hcoherent strategy).of_eq_ok hplan
    refine .inr ⟨plan, rfl, ?_, ?_, ?_, ?_, ?_⟩
    · exact hexecutable.unravels.replay hcoherent.names_distinct.1
    · rw [hcoherent.paths, ← hexecutable.leaves, List.map_map]
      rfl
    · rw [hcoherent.datatypes, ← hexecutable.leaves, List.map_map]
      rfl
    · rw [hexecutable.renames, hexecutable.select]
    · rw [hexecutable.select]
      exact hcoherent.columns_nodup

/-- A deferred plan in which the fields of one struct go by their own names, one of which is that
of the struct, and those of another one by their full paths, since their own names are taken. -/
theorem Plan.ofSchema_collides_or_replays_deferred :
    ∃ schema plan, compile (Text.ofString
        "x: Struct(x: Int8, y: Int8), z: List(Struct(x=x2: Int8, y=y2: Int8))") = .ok schema ∧
      Plan.ofSchema schema .deferred = .ok plan ∧
      plan.steps.foldlM Step.replay? (schema.fields.map Prod.fst) =
        some ["x", "y", "z.x", "z.y"] := by
  have hplanned : ((compile (Text.ofString
      "x: Struct(x: Int8, y: Int8), z: List(Struct(x=x2: Int8, y=y2: Int8))")).toOption.bind
        fun schema => (Plan.ofSchema schema .deferred).toOption.map
          fun plan => plan.leaves.map Leaf.column) = some ["x", "y", "z.x", "z.y"] := by
    decide +kernel
  obtain ⟨schema, hschema, hplanned⟩ := Option.bind_eq_some_iff.mp hplanned
  obtain ⟨plan, hplan, hleaves⟩ := Option.map_eq_some_iff.mp hplanned
  have hcompile := toOption_eq_some_iff.mp hschema
  have hmade := toOption_eq_some_iff.mp hplan
  refine ⟨schema, plan, hcompile, hmade, ?_⟩
  rcases Plan.ofSchema_collides_or_replays hcompile .deferred with
    ⟨_, herror⟩ | ⟨_, hok, hreplay, -⟩
  · rw [hmade] at herror
    contradiction
  · rw [hmade] at hok
    obtain rfl := Except.ok.inj hok
    rw [hreplay, hleaves]

end NestedRecords
