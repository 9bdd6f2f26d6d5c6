import NestedRecords.Plan.Planning
import NestedRecords.Proofs.Columns

/-!
# What the steps of a plan do to the columns

A plan is a flat list of steps on columns that are known by name alone. What makes it a walk over
a tree is that at every moment the columns fall into two parts: in front those that hold scalars
already, and behind them those that are still to be taken apart, each with its type. Every step
works on the first of the latter. `Unravels` is that walk; it is the description of plans that
both the planner and the execution of plans are measured by.

`Step.replay?` is the weaker view in which a step sees only the names, and says when they can go
on without two of them being equal.
-/

namespace NestedRecords

/-! ### Walking a tree -/

/-- The columns of some fields behind a lead, with their types. -/
def leadFields (lead : String) (fields : Fields) : Fields :=
  fields.map fun field => (lead ++ field.1, field.2)

@[simp]
theorem map_fst_leadFields (lead : String) (fields : Fields) :
    (leadFields lead fields).map Prod.fst = Unfolding.fieldColumns lead fields := by
  rw [leadFields, List.map_map]
  rfl

theorem fieldColumns_eq (lead : String) (fields : Fields) :
    Unfolding.fieldColumns lead fields = (fields.map Prod.fst).map (lead ++ ·) := by
  rw [List.map_map]
  rfl

theorem leadFields_empty (fields : Fields) : leadFields "" fields = fields := by
  simp [leadFields]

theorem fieldColumns_empty (fields : Fields) :
    Unfolding.fieldColumns "" fields = fields.map Prod.fst := by
  rw [← map_fst_leadFields, leadFields_empty]

/-- The columns of a record are those of its fields, with none of others around them. -/
theorem fieldColumns_root (fields : Fields) :
    [] ++ Unfolding.fieldColumns "" fields ++ [] = fields.map Prod.fst := by
  rw [fieldColumns_empty, List.nil_append, List.append_nil]

/-- **Unraveling columns.** Some columns hold scalars and are done, others are pending with their
types. The steps take the pending ones apart from the first to the last, the first one entirely
before the next is touched, and leave these columns behind. Where a struct gives way to its
fields no two columns have one name. -/
inductive Unravels : List String → Fields → List Step → List String → Prop
  | nil (done : List String) : Unravels done [] [] done
  -- the column stays where it is and joins those that are done
  | scalar {done : List String} {column : String} {datatype : Datatype} {pending : Fields}
      {steps : List Step} {out : List String}
      (rest : Unravels (done ++ [column]) pending steps out) :
    Unravels done ((column, .scalar datatype) :: pending) steps out
  -- the column holds the items under the name of the list, and is still pending
  | list {done : List String} {column : String} {element : Tree} {pending : Fields}
      {steps : List Step} {out : List String}
      (rest : Unravels done ((column, element) :: pending) steps out) :
    Unravels done ((column, .list element) :: pending) (.explode column :: steps) out
  -- the fields are pending in the place of the struct, the first of them next
  | struct {done : List String} {column lead : String} {fields pending : Fields}
      {steps : List Step} {out : List String}
      (distinct :
        (done ++ Unfolding.fieldColumns lead fields ++ pending.map Prod.fst).Nodup)
      (rest : Unravels done (leadFields lead fields ++ pending) steps out) :
    Unravels done ((column, .struct fields) :: pending)
      (.unnest column lead (fields.map Prod.fst) :: steps) out

/-! ### Replaying names -/

/-- The columns behind a step, by their names alone: the column of the step has to be there, and
the names that replace it have to differ from each other and from all other columns. -/
def Step.replay? (columns : List String) : Step → Option (List String)
  | explode column => if column ∈ columns then some columns else none
  | unnest column lead fields =>
    if column ∈ columns ∧ (fields.map (lead ++ ·)).Nodup ∧
        ∀ name ∈ fields.map (lead ++ ·), name ∈ columns → name = column then
      some (spread column (fields.map (lead ++ ·)) columns)
    else none

/-- Exploding a column that is there changes no name. -/
theorem Step.replay?_explode {columns : List String} {column : String} (h : column ∈ columns) :
    (explode column).replay? columns = some columns := if_pos h

/-- A struct can give way to its fields when that leaves the columns distinct. -/
theorem Step.replay?_unnest {done rest fields : List String} {column lead : String}
    (hcolumns : (done ++ column :: rest).Nodup)
    (hdistinct : (done ++ fields.map (lead ++ ·) ++ rest).Nodup) :
    (unnest column lead fields).replay? (done ++ column :: rest) =
      some (done ++ fields.map (lead ++ ·) ++ rest) := by
  obtain ⟨hfront, -, -⟩ := List.nodup_append.mp hdistinct
  obtain ⟨-, hunnested, -⟩ := List.nodup_append.mp hfront
  rw [replay?, if_pos ⟨List.mem_append_right _ List.mem_cons_self, hunnested,
    fun _ => eq_of_mem_middle hdistinct⟩,
    spread_middle hcolumns]

/-- **Run lemma for names.** The steps of an unraveling can be replayed on the names of the
columns, and what remains are the columns it leaves behind. -/
theorem Unravels.replay {done : List String} {pending : Fields} {steps : List Step}
    {out : List String} (h : Unravels done pending steps out) :
    (done ++ pending.map Prod.fst).Nodup →
      steps.foldlM Step.replay? (done ++ pending.map Prod.fst) = some out := by
  induction h with
  | nil done =>
    intro _
    rw [List.map_nil, List.append_nil]
    rfl
  | @scalar done column _ pending _ _ _ ih =>
    intro hdistinct
    rw [List.append_assoc] at ih
    exact ih hdistinct
  | list _ ih =>
    intro hdistinct
    rw [List.foldlM_cons, List.map_cons, Step.replay?_explode (by simp)]
    exact ih hdistinct
  | struct distinct _ ih =>
    intro hdistinct
    rw [fieldColumns_eq] at distinct
    rw [List.map_append, map_fst_leadFields, fieldColumns_eq, ← List.append_assoc] at ih
    rw [List.foldlM_cons, List.map_cons, Step.replay?_unnest hdistinct distinct]
    exact ih distinct

end NestedRecords
