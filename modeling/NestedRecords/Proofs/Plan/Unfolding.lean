import NestedRecords.Proofs.Outcome
import NestedRecords.Proofs.Plan.Unraveling
import NestedRecords.Proofs.Tree.Leaves

/-!
# What the planner makes of a tree

The planner walks a tree with a list of columns in its hands, in which it replaces a struct by
its fields. `Unfolding.Unfolds` says what comes out of it: the columns of the leaves stand where
the column of the type stood, all columns are still distinct, the leaves are those of the tree
with their paths, and the steps unravel the column.

How a struct names its fields depends on the strategy and on the names that are taken. None of
that matters here: whatever lead is chosen, it leaves the columns distinct, and if there is none
the planner says so. The induction carries the distinctness of the columns from each field to the
next, and with it the place of the column that comes next.
-/

namespace NestedRecords

namespace Unfolding

/-! ### Collisions -/

/-- The planner has found two columns of one name. -/
def IsCollision (error : PlanError) : Prop := ∃ column, error = .duplicateColumns column

variable {separator : String} {strategy : Strategy} {done rest : List String} {column : String}

/-- Fields with different names have different columns. -/
theorem nodup_fieldColumns {fields : Fields} (h : (fields.map Prod.fst).Nodup) (lead : String) :
    (fieldColumns lead fields).Nodup := by
  rw [fieldColumns_eq]
  exact List.Pairwise.map _ (fun a b hne heq => hne ((String.append_right_inj lead).mp heq)) h

/-- Of the columns of some fields, the first one is next. -/
theorem fieldColumns_cons_middle (done rest : List String) (lead name : String) (type : Tree)
    (fields : Fields) : done ++ fieldColumns lead ((name, type) :: fields) ++ rest =
      done ++ (lead ++ name) :: (fieldColumns lead fields ++ rest) := by
  rw [fieldColumns, List.map_cons, List.append_assoc]
  rfl

/-- Columns are free when they are none of those around the struct. -/
theorem collides_eq_false_iff {lead : String} {fields : Fields}
    (hcolumns : (done ++ column :: rest).Nodup) :
    collides (done ++ column :: rest) column lead fields = false ↔
      ∀ name ∈ fieldColumns lead fields, name ∉ done ++ rest := by
  have haround : ∀ name, name ∈ (done ++ column :: rest).filter (· ≠ column) ↔
      name ∈ done ++ rest := by
    intro name
    rw [List.mem_filter, List.perm_middle.mem_iff, List.mem_cons, decide_eq_true_eq]
    refine ⟨fun h => h.1.resolve_left h.2, fun h => ⟨.inr h, ne_of_nodup_middle hcolumns h⟩⟩
  rw [collides, List.any_eq_false]
  simp only [haround, decide_eq_true_eq]

/-- Without a collision the fields of a struct can take its place. -/
theorem nodup_of_not_collides {lead : String} {fields : Fields}
    (hcolumns : (done ++ column :: rest).Nodup) (hnames : (fields.map Prod.fst).Nodup)
    (h : collides (done ++ column :: rest) column lead fields = false) :
    (done ++ fieldColumns lead fields ++ rest).Nodup := by
  refine nodup_middle hcolumns (nodup_fieldColumns hnames lead) fun name hname hmem => ?_
  have hin := List.mem_cons.mp (List.perm_middle.mem_iff.mp hmem)
  exact hin.resolve_right ((collides_eq_false_iff hcolumns).mp h name hname)

/-- A lead that is chosen leaves the columns distinct. -/
theorem chooseLead_ends {fields : Fields} (leads : List String)
    (hcolumns : (done ++ column :: rest).Nodup) (hnames : (fields.map Prod.fst).Nodup) :
    Ends IsCollision (fun lead => (done ++ fieldColumns lead fields ++ rest).Nodup)
      (chooseLead (done ++ column :: rest) column fields leads) := by
  unfold chooseLead
  split
  · rename_i lead hlead
    refine .ok (nodup_of_not_collides hcolumns hnames ?_)
    simpa using List.find?_some hlead
  · exact .error ⟨column, rfl⟩

/-- Of the columns of one name the first one gives way. -/
theorem replaceColumn_first (hdone : column ∉ done) (others : List String) :
    replaceColumn column others (done ++ column :: rest) = some (done ++ others ++ rest) := by
  induction done with
  | nil => rw [List.nil_append, replaceColumn, if_pos rfl, List.nil_append]
  | cons first done ih =>
    obtain ⟨hfirst, hdone⟩ := not_or.mp (mt List.mem_cons.mpr hdone)
    rw [List.cons_append, replaceColumn, if_neg (Ne.symm hfirst), ih hdone]
    rfl

theorem replaceColumn_middle (hcolumns : (done ++ column :: rest).Nodup) (others : List String) :
    replaceColumn column others (done ++ column :: rest) = some (done ++ others ++ rest) :=
  replaceColumn_first (fun h => ne_of_nodup_middle hcolumns (List.mem_append_left _ h) rfl) others

/-! ### Unfoldings -/

/-- **Unfolding columns.** Between columns that are done and columns that are left for later, the
columns of some types have given way to those of their leaves. -/
structure Unfolds (done rest : List String) (types : Fields) (leaves : List (String × Datatype))
    (unfolding : Unfolding) : Prop where
  columns : unfolding.columns = done ++ unfolding.leaves.map Leaf.column ++ rest
  distinct : unfolding.columns.Nodup
  leaves : unfolding.leaves.map (fun leaf => (leaf.path, leaf.datatype)) = leaves
  /-- The steps come in front of whatever unravels the columns behind. -/
  unravels : ∀ {pending : Fields} {steps : List Step} {out : List String},
    pending.map Prod.fst = rest →
    Unravels (done ++ unfolding.leaves.map Leaf.column) pending steps out →
    Unravels done (types ++ pending) (unfolding.steps ++ steps) out

/-- Nothing to unfold. -/
theorem Unfolds.nil (h : (done ++ rest).Nodup) :
    Unfolds done rest [] [] { columns := done ++ rest, steps := [], leaves := [] } where
  columns := by rw [List.map_nil, List.append_nil]
  distinct := h
  leaves := rfl
  unravels _ h := by rwa [List.map_nil, List.append_nil] at h

/-- Unfolding some columns and then those behind them. -/
theorem Unfolds.append {types others : Fields} {leaves more : List (String × Datatype)}
    {first second : Unfolding}
    (hfirst : Unfolds done (others.map Prod.fst ++ rest) types leaves first)
    (hsecond : Unfolds (done ++ first.leaves.map Leaf.column) rest others more second) :
    Unfolds done rest (types ++ others) (leaves ++ more)
      { columns := second.columns
        steps := first.steps ++ second.steps
        leaves := first.leaves ++ second.leaves } where
  columns := by rw [hsecond.columns, List.map_append, List.append_assoc done]
  distinct := hsecond.distinct
  leaves := by rw [List.map_append, hfirst.leaves, hsecond.leaves]
  unravels {pending steps out} hrest h := by
    rw [List.map_append, ← List.append_assoc] at h
    rw [List.append_assoc, List.append_assoc]
    refine hfirst.unravels ?_ (hsecond.unravels hrest h)
    rw [List.map_append, hrest]

/-! ### The planner -/

mutual

/-- **Planning a type.** The planner unfolds the column of a type, or finds a collision. -/
theorem ofTree_ends : ∀ (type : Tree) {done rest : List String} {column : String}
    (scope : List String), (done ++ column :: rest).Nodup → type.NamesDistinct →
      Ends IsCollision (Unfolds done rest [(column, type)] (type.leaves separator scope))
        (ofTree separator strategy (done ++ column :: rest) column
          (joinPath separator scope.reverse) type)
  | .scalar datatype, done, rest, column, scope, hcolumns, _ => by
    rw [ofTree]
    refine .ok ⟨?_, hcolumns, rfl, ?_⟩
    · rw [List.append_assoc]
      rfl
    · exact fun _ h => .scalar h
  | .list element, done, rest, column, scope, hcolumns, hnames => by
    have hpath : joinPath separator ("" :: scope).reverse = joinPath separator scope.reverse := by
      rw [List.reverse_cons, joinPath_concat_anonymous]
    have hinner := ofTree_ends element ("" :: scope) hcolumns hnames
    rw [hpath] at hinner
    rw [ofTree, Tree.leaves]
    refine hinner.bind fun inner h => .ok ⟨h.columns, h.distinct, h.leaves, ?_⟩
    exact fun hrest hbehind => .list (h.unravels hrest hbehind)
  | .struct fields, done, rest, column, scope, hcolumns, ⟨hsiblings, hnames⟩ => by
    rw [ofTree, Tree.leaves]
    -- of the two errors a struct can have, the second one needs a column that is not there
    refine (chooseLead_ends _ hcolumns hsiblings).bind fun lead hlead => ?_
    rw [replaceColumn_middle hcolumns]
    refine (ofFields_ends fields lead scope hlead hnames).bind fun inner h => ?_
    refine .ok ⟨h.columns, h.distinct, h.leaves, ?_⟩
    rintro pending steps out hrest hbehind
    rw [← hrest] at hlead
    exact .struct hlead (h.unravels hrest hbehind)

/-- **Planning fields.** The planner unfolds the columns of some fields, or finds a collision. -/
theorem ofFields_ends : ∀ (fields : List (String × Tree)) {done rest : List String}
    (lead : String) (scope : List String),
      (done ++ fieldColumns lead fields ++ rest).Nodup → Tree.FieldNamesDistinct fields →
      Ends IsCollision
        (Unfolds done rest (leadFields lead fields) (Tree.fieldLeaves separator scope fields))
        (ofFields separator strategy (done ++ fieldColumns lead fields ++ rest) lead
          (joinPath separator scope.reverse) fields)
  | [], done, rest, lead, scope, hcolumns, _ => by
    have hnone : done ++ fieldColumns lead [] ++ rest = done ++ rest := by
      rw [fieldColumns, List.map_nil, List.append_nil]
    rw [hnone] at hcolumns ⊢
    exact .ok (.nil hcolumns)
  | (name, type) :: fields, done, rest, lead, scope, hcolumns, ⟨htype, hnames⟩ => by
    rw [fieldColumns_cons_middle] at hcolumns ⊢
    rw [ofFields, joinPath_concat, ← List.reverse_cons, Tree.fieldLeaves]
    refine (ofTree_ends type (name :: scope) hcolumns htype).bind fun first h => ?_
    -- what the first field leaves behind is done for the others, and still distinct from them
    have hdistinct := h.distinct
    rw [h.columns, ← List.append_assoc] at hdistinct
    rw [h.columns, ← List.append_assoc]
    refine (ofFields_ends fields lead scope hdistinct hnames).bind fun others hothers => ?_
    rw [← map_fst_leadFields] at h
    exact .ok (h.append hothers)

end

end Unfolding

end NestedRecords
