import NestedRecords.Plan.Execution
import NestedRecords.Proofs.Frame.Operations

/-!
# Steps and the names they may meet

Which columns a frame has while a plan runs depends on the records. What is known of them without
the records is a list that they are among (`Frame.Within`), and each step takes such a list to the
next one. Here nothing is said about rows but that they have cells for the columns of their frame.

A step whose column is not there is skipped, and no step meets a column that is missing. So there
are two ways for a step to fail: on a value of another shape, or on a name that is taken.
-/

namespace NestedRecords

namespace Frame

/-- **Among some columns.** The columns of the frame are distinct and among the given ones, and its
rows have cells for just the columns that are there. -/
structure Within (columns : List String) (frame : Frame) : Prop where
  distinct : frame.columns.Nodup
  subset : frame.columns ⊆ columns
  rectangular : frame.Rectangular

namespace Within

variable {frame : Frame} {columns columns' : List String} {column lead : String}
  {fields : List String}

theorem mono (h : frame.Within columns) (hsub : columns ⊆ columns') : frame.Within columns' :=
  ⟨h.distinct, List.Subset.trans h.subset hsub, h.rectangular⟩

/-- Selecting distinct columns that are there leaves just these. -/
theorem select (hcolumns : columns.Nodup) (hpresent : columns ⊆ frame.columns) :
    ∃ selected, frame.select columns = .ok selected ∧ selected.columns = columns ∧
      selected.Within columns := by
  refine ⟨_, select_eq_ok fun column hmem => hpresent hmem, rfl, hcolumns, fun _ h => h, ?_⟩
  intro row hrow
  obtain ⟨existing, -, rfl⟩ := List.mem_map.mp hrow
  exact Row.keys_map _ _

/-- **Step lemma for lists.** -/
theorem runStep_explode (h : frame.Within columns) (column : String) :
    Ends FrameError.IsMisfit (Within columns)
      (Plan.runStep engine frame (.explode column)) := by
  by_cases hmem : column ∈ frame.columns
  · have hrun : Plan.runStep engine frame (.explode column) = frame.explode column := if_pos hmem
    rw [hrun]
    refine (explode_ends hmem).mono (fun _ herror => herror.1) ?_
    rintro _ ⟨-, rfl⟩
    refine ⟨h.distinct, h.subset, fun other hother => ?_⟩
    obtain ⟨row, hrow, hother⟩ := List.mem_flatMap.mp hother
    obtain ⟨item, -, rfl⟩ := List.mem_map.mp hother
    rw [Assoc.keys_insert, h.rectangular row hrow, if_pos hmem]
  · have hskip : Plan.runStep engine frame (.explode column) = .ok frame := if_neg hmem
    rw [hskip]
    exact .ok h

/-- **Step lemma for structs.** The struct gives way to its fields, or one of them would be called
by the name of another column that is there. -/
theorem runStep_unnest (h : frame.Within columns) (hfields : (fields.map (lead ++ ·)).Nodup)
    (hkeep : ∀ name ∈ columns, name ≠ column → name ∈ columns')
    (hnew : fields.map (lead ++ ·) ⊆ columns') :
    Ends (fun error => error.IsMisfit ∨ ∃ name ∈ fields.map (lead ++ ·),
        name ∈ frame.columns ∧ name ≠ column ∧ column ∈ frame.columns ∧
          error = .existingColumn name)
      (Within columns') (Plan.runStep engine frame (.unnest column lead fields)) := by
  by_cases hmem : column ∈ frame.columns
  · have hrun : Plan.runStep engine frame (.unnest column lead fields) =
        frame.unnest column lead fields := if_pos hmem
    rw [hrun]
    rcases free_or_unnest_eq_error hmem lead fields with
      hfree | ⟨name, hname, hin, hne, hfail⟩
    · refine (unnest_ends hmem hfree).mono (fun _ herror => .inl herror.1) ?_
      rintro _ ⟨-, rfl⟩
      refine ⟨nodup_spread h.distinct hmem hfields hfree, fun name hname => ?_, ?_⟩
      · obtain ⟨existing, hexisting, hname⟩ := List.mem_flatMap.mp hname
        split at hname
        · exact hnew hname
        · rename_i hne
          obtain rfl := List.mem_singleton.mp hname
          exact hkeep name (h.subset hexisting) hne
      · intro other hother
        obtain ⟨row, -, rfl⟩ := List.mem_map.mp hother
        exact Row.keys_spread
    · rw [hfail]
      exact .error (.inr ⟨name, hname, hin, hne, hmem, rfl⟩)
  · have hskip : Plan.runStep engine frame (.unnest column lead fields) = .ok frame := if_neg hmem
    rw [hskip]
    refine .ok ⟨h.distinct, fun name hname => ?_, h.rectangular⟩
    exact hkeep name (h.subset hname) fun heq => hmem (heq ▸ hname)

end Within

end Frame

end NestedRecords
