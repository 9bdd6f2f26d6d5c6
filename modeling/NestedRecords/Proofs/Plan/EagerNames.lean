import NestedRecords.Plan.Planning
import NestedRecords.Proofs.Outcome
import NestedRecords.Proofs.Tree.Leaves

/-!
# Names of eager plans

Under the eager strategy a struct calls its fields by their full paths, so that the separator stands
in front of each of them. An anonymous struct at the root is the exception: it has no path, and its
column no name.
-/

namespace NestedRecords

/-- The step calls fields by names that the separator stands in, if its column has a name. -/
def Step.Delimited (separator : String) : Step → Prop
  | explode _ => True
  | unnest column lead _ => column = "" ∨ ∃ before, lead = before ++ separator

namespace Unfolding

variable {separator : String}

/-- An eager struct is led by its path. -/
theorem eq_pathLead_of_chooseLead {columns : List String} {column path lead : String}
    {fields : Fields}
    (h : chooseLead columns column fields (leadsOf separator .eager path) = .ok lead) :
    lead = pathLead separator path :=
  List.mem_singleton.mp (of_chooseLead h).1

mutual

/-- Where a column has a name if its path has, all steps on it and below are delimited. -/
theorem ofTree_delimited : ∀ (type : Tree) {columns : List String} {column path : String}
    {unfolding : Unfolding}, ofTree separator .eager columns column path type = .ok unfolding →
      (path = "" → column = "") → ∀ step ∈ unfolding.steps, step.Delimited separator
  | .scalar datatype, _, _, _, _, h, _ => by
    rw [ofTree] at h
    obtain rfl := Except.ok.inj h
    exact nofun
  | .list element, _, _, _, _, h, hpath => by
    rw [ofTree] at h
    obtain ⟨inner, hinner, h⟩ := bind_eq_ok_iff.mp h
    obtain rfl := Except.ok.inj h
    exact List.forall_mem_cons.mpr ⟨trivial, ofTree_delimited element hinner hpath⟩
  | .struct fields, columns, column, path, _, h, hpath => by
    rw [ofTree] at h
    obtain ⟨lead, hlead, h⟩ := bind_eq_ok_iff.mp h
    obtain rfl := eq_pathLead_of_chooseLead hlead
    split at h
    · contradiction
    · obtain ⟨inner, hinner, h⟩ := bind_eq_ok_iff.mp h
      obtain rfl := Except.ok.inj h
      refine List.forall_mem_cons.mpr ⟨?_, ofFields_delimited fields hinner⟩
      by_cases hempty : path = ""
      · exact .inl (hpath hempty)
      · exact .inr ⟨path, if_neg hempty⟩

theorem ofFields_delimited : ∀ (fields : List (String × Tree)) {columns : List String}
    {path : String} {unfolding : Unfolding},
    ofFields separator .eager columns (pathLead separator path) path fields = .ok unfolding →
      ∀ step ∈ unfolding.steps, step.Delimited separator
  | [], _, _, _, h => by
    rw [ofFields] at h
    obtain rfl := Except.ok.inj h
    exact nofun
  | (name, type) :: rest, _, path, _, h => by
    rw [ofFields] at h
    obtain ⟨first, hfirst, h⟩ := bind_eq_ok_iff.mp h
    obtain ⟨others, hothers, h⟩ := bind_eq_ok_iff.mp h
    obtain rfl := Except.ok.inj h
    refine List.forall_mem_append.mpr
      ⟨ofTree_delimited type hfirst ?_, ofFields_delimited rest hothers⟩
    -- a field without a path is an anonymous one at the root
    intro hempty
    obtain ⟨hpath, hname⟩ : path = "" ∧ name = "" := by
      simpa using joinPath_eq_empty_iff.mp hempty
    rw [hpath, hname, pathLead, if_pos rfl, String.append_empty]

end

end Unfolding

/-- The steps of an eager plan are delimited. -/
theorem Plan.delimited_of_ofSchema {schema : Schema} {plan : Plan}
    (h : Plan.ofSchema schema .eager = .ok plan) :
    ∀ step ∈ plan.steps, step.Delimited schema.separator := by
  obtain ⟨unfolding, hunfolding, h⟩ := bind_eq_ok_iff.mp h
  obtain ⟨rename, -, h⟩ := bind_eq_ok_iff.mp h
  obtain rfl := Except.ok.inj h
  have hroot : Unfolding.pathLead schema.separator "" = "" := if_pos rfl
  rw [← hroot] at hunfolding
  exact Unfolding.ofFields_delimited _ hunfolding

end NestedRecords
