import NestedRecords.Proofs.Pairing
import NestedRecords.Proofs.Plan.EagerNames
import NestedRecords.Proofs.Plan.Executable

/-!
# Deferred plans beside eager ones

An eager struct always calls its fields by their full paths. A deferred one calls them by their own
names, and falls back on full paths where one of these is taken. Wherever two such plans for one
tree have got to, every column of the deferred plan is called as in the eager one, or by the own
name of its field.

So where the full paths of a struct are free in the eager plan they are free in the deferred one,
with one exception: a column beside the struct may go by an own name that is spelled like one of
them. Where this cannot be (`Tree.FullPathsFree`), there is a deferred plan whenever there is an
eager one (`Plan.ofSchema_deferred`). Where it can, an own name that was given away early may stand
in the way of a struct for which there is no other name: one that has no path, or one whose path is
a name because the separator is made of the same characters (`Plan.ofSchema_deferred_fails`).
-/

namespace NestedRecords

namespace Tree

/-! ### Own names and full paths -/

mutual

/-- The own names of the leaves of a named type. An item of a list goes by the name of the list. -/
def leafNames (name : String) : Tree → List String
  | scalar _ => [name]
  | list element => leafNames name element
  | struct fields => fieldLeafNames fields

/-- The own names of the leaves of some fields, one field after the other. -/
def fieldLeafNames : List (String × Tree) → List String
  | [] => []
  | (name, type) :: rest => leafNames name type ++ fieldLeafNames rest

end

mutual

/-- **Free full paths.** No struct of the type has a field whose full path is the own name of a
column that stands beside the struct when it is taken apart. These are the leaves in front of the
struct, and the fields behind it and behind the structs that it is in. -/
def FullPathsFree (separator : String) (scope beside : List String) : Tree → Prop
  | scalar _ => True
  | list element => FullPathsFree separator ("" :: scope) beside element
  | struct fields =>
    (∀ column ∈ Unfolding.fieldColumns
      (Unfolding.pathLead separator (joinPath separator scope.reverse)) fields, column ∉ beside) ∧
    FieldFullPathsFree separator scope beside fields

/-- Free full paths in some fields, one field after the other. -/
def FieldFullPathsFree (separator : String) (scope beside : List String) :
    List (String × Tree) → Prop
  | [] => True
  | (name, type) :: rest =>
    FullPathsFree separator (name :: scope) (beside ++ rest.map Prod.fst) type ∧
    FieldFullPathsFree separator scope (beside ++ leafNames name type) rest

end

mutual

/-- Free full paths are decided struct by struct. -/
def decidableFullPathsFree (separator : String) (scope beside : List String) :
    (type : Tree) → Decidable (FullPathsFree separator scope beside type)
  | scalar _ => isTrue trivial
  | list element => decidableFullPathsFree separator ("" :: scope) beside element
  | struct fields => @instDecidableAnd _ _ inferInstance
      (decidableFieldFullPathsFree separator scope beside fields)

/-- Free full paths in some fields are decided field by field. -/
def decidableFieldFullPathsFree (separator : String) (scope beside : List String) :
    (fields : List (String × Tree)) → Decidable (FieldFullPathsFree separator scope beside fields)
  | [] => isTrue trivial
  | (name, type) :: rest => @instDecidableAnd _ _
      (decidableFullPathsFree separator (name :: scope) (beside ++ rest.map Prod.fst) type)
      (decidableFieldFullPathsFree separator scope (beside ++ leafNames name type) rest)

end

instance (separator : String) (scope beside : List String) (fields : Fields) :
    Decidable (FieldFullPathsFree separator scope beside fields) :=
  decidableFieldFullPathsFree separator scope beside fields

end Tree

namespace Unfolding

open NestedRecords.Tree

variable {separator : String}

/-! ### Choosing names -/

/-- **Choosing names.** Where an eager struct finds its names free, a deferred one finds some: its
fields are called as in the eager plan or by their own names. -/
private theorem chooseLead_deferred {path column column' : String} {fields : Fields}
    {done done' rest rest' beside : List String}
    (hpaths : ∀ name ∈ fieldColumns (pathLead separator path) fields, name ∉ beside)
    (hdistinct : (done ++ column :: rest).Nodup) (hdistinct' : (done' ++ column' :: rest').Nodup)
    (hothers : done' ++ rest' ⊆ done ++ rest ++ beside) :
    Follows (fun lead lead' => lead' = lead ∨ lead' = "")
      (chooseLead (done ++ column :: rest) column fields (leadsOf separator .eager path))
      (chooseLead (done' ++ column' :: rest') column' fields
        (leadsOf separator .deferred path)) := by
  refine .of_eq_ok fun lead h => ?_
  obtain rfl := eq_pathLead_of_chooseLead h
  have hfree := (collides_eq_false_iff hdistinct).mp (of_chooseLead h).2
  have hfree' := (collides_eq_false_iff hdistinct').mpr fun name hname hmem =>
    (List.mem_append.mp (hothers hmem)).elim (hfree name hname) (hpaths name hname)
  have hfull : pathLead separator path ∈ leadsOf separator .deferred path := by simp [leadsOf]
  obtain ⟨lead', hlead'⟩ := exists_chooseLead hfull hfree'
  refine ⟨lead', hlead', Or.symm ?_⟩
  simpa [leadsOf] using (of_chooseLead hlead').1

/-- The columns of some fields are called by their own names, if not as before. -/
private theorem fieldColumns_subset {lead lead' : String} (hlead : lead' = lead ∨ lead' = "")
    (fields : Fields) :
    fieldColumns lead' fields ⊆ fieldColumns lead fields ++ fields.map Prod.fst := by
  rcases hlead with rfl | rfl
  · exact List.subset_append_left _ _
  · rw [fieldColumns_empty]
    exact List.subset_append_right _ _

/-! ### Both plans -/

/-- Leaf columns that are called as in another unfolding, or by one of some names. -/
def CalledBy (names : List String) (unfolding unfolding' : Unfolding) : Prop :=
  unfolding'.leaves.map Leaf.column ⊆ unfolding.leaves.map Leaf.column ++ names

mutual

/-- **Deferring a type.** The column of a type can be unfolded by the deferred strategy where it can
by the eager one. -/
theorem ofTree_deferred : ∀ (type : Tree) {done done' rest rest' beside : List String}
    {column column' name : String} (scope : List String), type.NamesDistinct →
    type.FullPathsFree separator scope beside →
    (done ++ column :: rest).Nodup → (done' ++ column' :: rest').Nodup →
    done' ++ rest' ⊆ done ++ rest ++ beside → column' = column ∨ column' = name →
    Follows (CalledBy (type.leafNames name))
      (ofTree separator .eager (done ++ column :: rest) column
        (joinPath separator scope.reverse) type)
      (ofTree separator .deferred (done' ++ column' :: rest') column'
        (joinPath separator scope.reverse) type)
  | .scalar datatype, _, _, _, _, _, _, _, _, _, _, _, _, _, _, hcolumn => by
    rw [ofTree, ofTree]
    refine .ok ?_
    simpa [CalledBy, leafNames] using hcolumn
  | .list element, _, _, _, _, _, _, _, _, scope, hnames, hfree, hdistinct, hdistinct', hothers,
      hcolumn => by
    have hinner := ofTree_deferred element ("" :: scope) hnames hfree hdistinct hdistinct' hothers
      hcolumn
    rw [List.reverse_cons, joinPath_concat_anonymous] at hinner
    rw [ofTree, ofTree]
    exact hinner.bind fun _ _ _ _ hcalled => .ok hcalled
  | .struct fields, _, _, _, _, _, _, _, _, scope, ⟨hsiblings, hnames⟩, ⟨hpaths, hfree⟩, hdistinct,
      hdistinct', hothers, _ => by
    rw [ofTree, ofTree]
    refine (chooseLead_deferred hpaths hdistinct hdistinct' hothers).bind
      fun lead lead' hlead hlead' hsame => ?_
    have hfields := (chooseLead_ends _ hdistinct hsiblings).of_eq_ok hlead
    have hfields' := (chooseLead_ends _ hdistinct' hsiblings).of_eq_ok hlead'
    rw [replaceColumn_middle hdistinct, replaceColumn_middle hdistinct']
    exact (ofFields_deferred fields scope hnames hfree hfields hfields' hothers hsame).bind
      fun _ _ _ _ hcalled => .ok hcalled

/-- **Deferring fields.** The columns of some fields can be unfolded by the deferred strategy where
they can by the eager one. -/
theorem ofFields_deferred : ∀ (fields : List (String × Tree))
    {done done' rest rest' beside : List String} {lead lead' : String} (scope : List String),
    FieldNamesDistinct fields → FieldFullPathsFree separator scope beside fields →
    (done ++ fieldColumns lead fields ++ rest).Nodup →
    (done' ++ fieldColumns lead' fields ++ rest').Nodup →
    done' ++ rest' ⊆ done ++ rest ++ beside → lead' = lead ∨ lead' = "" →
    Follows (CalledBy (fieldLeafNames fields))
      (ofFields separator .eager (done ++ fieldColumns lead fields ++ rest) lead
        (joinPath separator scope.reverse) fields)
      (ofFields separator .deferred (done' ++ fieldColumns lead' fields ++ rest') lead'
        (joinPath separator scope.reverse) fields)
  | [], _, _, _, _, _, _, _, _, _, _, _, _, _, _ => by
    rw [ofFields, ofFields]
    exact .ok (List.nil_subset _)
  | (name, type) :: fields, done, done', rest, rest', beside, lead, lead', scope,
      ⟨htype, hnames⟩, ⟨hfirst, hfree⟩, hdistinct, hdistinct', hothers, hlead => by
    rw [fieldColumns_cons_middle] at hdistinct hdistinct' ⊢
    rw [fieldColumns_cons_middle, ofFields, ofFields, joinPath_concat, ← List.reverse_cons]
    have hcolumn : lead' ++ name = lead ++ name ∨ lead' ++ name = name := by
      rcases hlead with rfl | rfl
      · exact .inl rfl
      · exact .inr String.empty_append
    have hpending := subset_middle hothers (fieldColumns_subset hlead fields)
    rw [List.append_assoc done', List.append_assoc done] at hpending
    refine (ofTree_deferred type (name :: scope) htype hfirst hdistinct hdistinct' hpending
      hcolumn).bind fun first first' hok hok' hcalled => ?_
    -- what the first field leaves behind is done for the others, in both plans
    have hunfolds := (ofTree_ends type (name :: scope) hdistinct htype).of_eq_ok hok
    have hunfolds' := (ofTree_ends type (name :: scope) hdistinct' htype).of_eq_ok hok'
    have hnext := hunfolds.distinct
    have hnext' := hunfolds'.distinct
    rw [hunfolds.columns, ← List.append_assoc] at hnext ⊢
    rw [hunfolds'.columns, ← List.append_assoc] at hnext' ⊢
    refine (ofFields_deferred fields scope hnames hfree hnext hnext' (subset_middle hothers hcalled)
      hlead).bind fun others others' _ _ hbehind => .ok ?_
    have hbefore : first'.leaves.map Leaf.column ++ [] ⊆
        first.leaves.map Leaf.column ++ [] ++ type.leafNames name := by
      simpa [CalledBy] using hcalled
    simpa [CalledBy, fieldLeafNames] using subset_middle hbefore hbehind

end

end Unfolding

/-! ### Plans -/

/-- The entries of a record can be unfolded by the deferred strategy where they can by the eager
one. -/
theorem Schema.Coherent.ofFields_deferred {schema : Schema} (h : schema.Coherent)
    (hfree : Tree.FieldFullPathsFree schema.separator [] [] schema.fields) :
    Follows (Unfolding.CalledBy (Tree.fieldLeafNames schema.fields))
      (Unfolding.ofFields schema.separator .eager (schema.fields.map Prod.fst) "" "" schema.fields)
      (Unfolding.ofFields schema.separator .deferred (schema.fields.map Prod.fst) "" ""
        schema.fields) := by
  obtain ⟨hsiblings, hnames⟩ := h.names_distinct
  rw [← fieldColumns_root] at hsiblings ⊢
  exact Unfolding.ofFields_deferred schema.fields [] hnames hfree hsiblings hsiblings
    (List.nil_subset _) (.inl rfl)

/-- **Deferring a plan.** If a compiled schema has an eager plan, it has a deferred one, where no
struct has a field whose full path is the own name of a column beside it. -/
theorem Plan.ofSchema_deferred {source : Text} {options : CompileOptions} {schema : Schema}
    {plan : Plan} (h : compile source options = .ok schema)
    (heager : Plan.ofSchema schema .eager = .ok plan)
    (hfree : Tree.FieldFullPathsFree schema.separator [] [] schema.fields) :
    ∃ plan', Plan.ofSchema schema .deferred = .ok plan' := by
  have hcoherent : schema.Coherent := coherent_of_compile h
  obtain ⟨unfolding, hunfolding, -⟩ := bind_eq_ok_iff.mp heager
  obtain ⟨unfolding', hunfolding', -⟩ := (hcoherent.ofFields_deferred hfree).exists_ok hunfolding
  exact hcoherent.exists_ofSchema hunfolding'

/-- A schema in which one struct falls back on full paths, and an anonymous one at the root has no
others to fall back on. -/
theorem Plan.ofSchema_deferred_anonymous :
    ∃ schema plan plan', compile (Text.ofString
        "a: Struct(x: Int8, y: Struct(x=z: Int8)), Struct(w: Int8)") = .ok schema ∧
      Plan.ofSchema schema .eager = .ok plan ∧
      Tree.FieldFullPathsFree schema.separator [] [] schema.fields ∧
      Plan.ofSchema schema .deferred = .ok plan' := by
  have hplanned : ((compile (Text.ofString
      "a: Struct(x: Int8, y: Struct(x=z: Int8)), Struct(w: Int8)")).toOption.bind
        fun schema => (Plan.ofSchema schema .eager).toOption.map
          fun _ => decide (Tree.FieldFullPathsFree schema.separator [] [] schema.fields)) =
      some true := by
    decide +kernel
  obtain ⟨schema, hcompile, hplanned⟩ := toOption_bind_eq_some_iff.mp hplanned
  obtain ⟨plan, heager, hfree⟩ := toOption_map_eq_some_iff.mp hplanned
  have hpaths := of_decide_eq_true hfree
  obtain ⟨plan', hplan'⟩ := Plan.ofSchema_deferred hcompile heager hpaths
  exact ⟨schema, plan, plan', hcompile, heager, hpaths, hplan'⟩

/-- How both plans are seen in one computation, the deferred one by its error. -/
private theorem exists_eager_of_computed {source : Text} {options : CompileOptions}
    {error : PlanError}
    (h : ((compile source options).toOption.bind fun schema =>
      (Plan.ofSchema schema .eager).toOption.bind fun _ =>
        match Plan.ofSchema schema .deferred with
        | .error error => some error
        | .ok _ => none) = some error) :
    ∃ schema plan, compile source options = .ok schema ∧
      Plan.ofSchema schema .eager = .ok plan ∧ Plan.ofSchema schema .deferred = .error error := by
  obtain ⟨schema, hcompile, h⟩ := toOption_bind_eq_some_iff.mp h
  obtain ⟨plan, heager, h⟩ := toOption_bind_eq_some_iff.mp h
  refine ⟨schema, plan, hcompile, heager, ?_⟩
  split at h
  · rename_i error' herror
    rw [herror, Option.some.inj h]
  · contradiction

/-- **Names given away too early.** Two schemas that have an eager plan and no deferred one. In each
of them the first struct gives away its own names. In the first schema the second struct has no
path, so that its fields can only go by their own names as well. In the second one the separator
could stand in a name, and the full path of a field is an own name that is given away. -/
theorem Plan.ofSchema_deferred_fails :
    (∃ schema plan, compile (Text.ofString "x: Struct(a=b: Utf8), Struct(a: Utf8)") = .ok schema ∧
      Plan.ofSchema schema .eager = .ok plan ∧
      Plan.ofSchema schema .deferred = .error (.duplicateColumns "")) ∧
    ∃ schema plan, compile (Text.ofString "x: Struct(a=b: Utf8, y_a=c: Utf8), y: Struct(a: Utf8)")
        { separator := "_" } = .ok schema ∧
      Plan.ofSchema schema .eager = .ok plan ∧
      Plan.ofSchema schema .deferred = .error (.duplicateColumns "y") :=
  ⟨exists_eager_of_computed (by decide +kernel), exists_eager_of_computed (by decide +kernel)⟩

end NestedRecords
