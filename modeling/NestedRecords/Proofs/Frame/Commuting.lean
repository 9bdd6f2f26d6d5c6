import Mathlib.Data.Multiset.Bind
import NestedRecords.Proofs.Frame.Effects
import NestedRecords.Proofs.Pairing

/-!
# Operations on different columns

What is done to one column of a frame and what is done to another one do not get in each other's
way. Both orders fail or both succeed: the first operation keeps the cells that the second one looks
at, and it keeps them in at least one row, so that no value that cannot be taken apart goes unseen
(`Frame.forall_mem_rows_after_iff`).

Where both succeed, exploding and unnesting give the same frame. Two columns that are exploded give
every row the items of one column times those of the other, and the order says which of them varies
faster. So there the frames agree up to the order of their rows (`Frame.Shuffled`), where a row
counts as a map, as its cells may have come up in either order too.
-/

namespace NestedRecords

namespace Frame

/-- **Frames up to the order of rows.** -/
structure Shuffled (frame other : Frame) : Prop where
  columns : frame.columns = other.columns
  rows : (frame.rows.map Row.asMap).Perm (other.rows.map Row.asMap)
  datatypes : frame.datatypes = other.datatypes

/-- Frames up to the order of rows give the same records in some order. -/
theorem Shuffled.perm_records {frame other : Frame} (h : frame.Shuffled other) :
    frame.records.Perm other.records := by
  have hread : ∀ frame : Frame, frame.records = (frame.rows.map Row.asMap).map fun row =>
      frame.recordColumns.map fun column => (column, (row column).getD .null) := by
    intro frame
    rw [List.map_map]
    rfl
  have hcolumns : frame.recordColumns = other.recordColumns := by
    rw [recordColumns, recordColumns, h.columns]
  rw [hread frame, hread other, hcolumns]
  exact h.rows.map _

variable {frame : Frame}

/-! ### Two operations -/

/-- Two operations in turn succeed when each applies to what it finds. -/
theorem perform_bind_eq_ok_iff {first second : Operation} (result : Frame) :
    (frame.perform first >>= perform second) = .ok result ↔
      (first.Applies frame ∧ second.Applies (frame.after first)) ∧
        result = (frame.after first).after second := by
  rw [bind_eq_ok_iff]
  constructor
  · rintro ⟨between, hfirst, hsecond⟩
    obtain ⟨happlies, rfl⟩ := perform_eq_ok_iff.mp hfirst
    obtain ⟨happlies', rfl⟩ := perform_eq_ok_iff.mp hsecond
    exact ⟨⟨happlies, happlies'⟩, rfl⟩
  · rintro ⟨⟨happlies, happlies'⟩, rfl⟩
    exact ⟨_, perform_eq_ok_iff.mpr ⟨happlies, rfl⟩, perform_eq_ok_iff.mpr ⟨happlies', rfl⟩⟩

/-- **Two orders.** Operations that do not change whether the other one applies succeed together,
and then it remains to compare the frames. -/
theorem perform_paired {P : Frame → Frame → Prop} (first second : Operation)
    (hsecond : first.Applies frame → (second.Applies (frame.after first) ↔ second.Applies frame))
    (hfirst : second.Applies frame → (first.Applies (frame.after second) ↔ first.Applies frame))
    (h : first.Applies frame → second.Applies frame →
      P ((frame.after first).after second) ((frame.after second).after first)) :
    Paired (fun _ _ => True) P (frame.perform first >>= perform second)
      (frame.perform second >>= perform first) := by
  refine .of_eq_ok_iff perform_bind_eq_ok_iff perform_bind_eq_ok_iff ?_ fun hboth => ?_
  · rw [and_congr_right hsecond, and_congr_right hfirst]
    exact and_comm
  · exact h hboth.1 ((hsecond hboth.1).mp hboth.2)

end Frame

namespace Operation

variable {frame : Frame} {a b lead : String} {fields : List String}

/-! ### Exploding next to another operation -/

/-- The rows that come of exploding a column agree with it on every other one. -/
theorem cell_rowsAfter_explode (hne : a ≠ b) {columns : List String} (row : Row) :
    ∀ row' ∈ (explode a).rowsAfter columns row, row'.cell b = row.cell b := by
  intro row' hmem
  obtain ⟨item, -, rfl⟩ := List.mem_map.mp hmem
  rw [Row.cell_insert, if_neg hne.symm]

theorem applies_explode_after_explode (hne : a ≠ b) (h : (explode a).Applies frame) :
    (explode b).Applies (frame.after (explode a)) ↔ (explode b).Applies frame :=
  and_congr_right' (Frame.forall_mem_rows_after_iff h (cell_rowsAfter_explode hne)
    fun value => value.items? = some value.items)

theorem applies_unnest_after_explode (hne : a ≠ b) (h : (explode a).Applies frame) :
    (unnest b lead fields).Applies (frame.after (explode a)) ↔
      (unnest b lead fields).Applies frame :=
  and_congr_right' (and_congr_right' (Frame.forall_mem_rows_after_iff h
    (cell_rowsAfter_explode hne) fun value => value.members? = some value.members))

/-- A column next to the one that is unnested is none of the new ones. -/
theorem notMem_fields_of_applies (ha : a ∈ frame.columns) (hne : a ≠ b)
    (h : (unnest b lead fields).Applies frame) : a ∉ fields.map (lead ++ ·) :=
  fun hnew => hne (h.2.1 a hnew ha)

theorem applies_explode_after_unnest (ha : a ∈ frame.columns) (hne : a ≠ b)
    (h : (unnest b lead fields).Applies frame) :
    (explode a).Applies (frame.after (unnest b lead fields)) ↔ (explode a).Applies frame := by
  have hcell : ∀ row, ∀ row' ∈ (unnest b lead fields).rowsAfter frame.columns row,
      row'.cell a = row.cell a := by
    intro row row' hmem
    obtain rfl := List.mem_singleton.mp hmem
    exact Row.cell_spread_of_mem ha hne (notMem_fields_of_applies ha hne h)
  exact and_congr (iff_of_true (mem_spread ha hne) ha)
    (Frame.forall_mem_rows_after_iff h hcell fun value => value.items? = some value.items)

/-! ### What comes of both orders -/

/-- The pairs that are chosen from two lists are the same, whichever list comes first. -/
theorem perm_flatMap_map_comm {α β γ : Type} (xs : List α) (ys : List β) (f : α → β → γ) :
    (xs.flatMap fun x => ys.map fun y => f x y).Perm
      (ys.flatMap fun y => xs.map fun x => f x y) := by
  have hmultisets : ((xs : Multiset α).bind fun x => (ys : Multiset β).map fun y => f x y) =
      (ys : Multiset β).bind fun y => (xs : Multiset α).map fun x => f x y :=
    Multiset.bind_map_comm _ _
  simp only [Multiset.map_coe, Multiset.coe_bind] at hmultisets
  exact Multiset.coe_eq_coe.mp hmultisets

/-- The rows that a row gives way to when two columns are exploded, one after the other. -/
theorem flatMap_rowsAfter_explode (hne : a ≠ b) (columns : List String) (row : Row) :
    ((explode a).rowsAfter columns row).flatMap ((explode b).rowsAfter columns) =
      (row.cell a).items.flatMap fun item => (row.cell b).items.map fun item' =>
        Assoc.insert b item' (Assoc.insert a item row) := by
  rw [rowsAfter, List.flatMap_map]
  refine List.flatMap_congr fun item _ => ?_
  rw [rowsAfter, Row.cell_insert, if_neg hne.symm]

/-- Two columns that are exploded one after the other give the same rows in some order. -/
theorem shuffled_explode_explode (hne : a ≠ b) :
    ((frame.after (explode a)).after (explode b)).Shuffled
      ((frame.after (explode b)).after (explode a)) where
  columns := rfl
  datatypes := rfl
  rows := by
    have hrows : ∀ c d, ((frame.after (explode c)).after (explode d)).rows =
        frame.rows.flatMap fun row => ((explode c).rowsAfter frame.columns row).flatMap
          ((explode d).rowsAfter frame.columns) := fun _ _ => List.flatMap_assoc
    rw [hrows, hrows, List.map_flatMap, List.map_flatMap]
    refine List.Perm.flatMap_left _ fun row _ => ?_
    rw [flatMap_rowsAfter_explode hne, flatMap_rowsAfter_explode hne.symm, List.map_flatMap,
      List.map_flatMap]
    simp only [List.map_map, Function.comp_def, Row.asMap_insert_comm hne]
    exact perm_flatMap_map_comm _ _ fun item item' =>
      Row.asMap (Assoc.insert a item (Assoc.insert b item' row))

/-- A column that is exploded and another one that is unnested give the same frame in both
orders. -/
theorem after_explode_unnest (hdistinct : frame.columns.Nodup) (ha : a ∈ frame.columns)
    (hne : a ≠ b) (h : (unnest b lead fields).Applies frame) :
    (frame.after (explode a)).after (unnest b lead fields) =
      (frame.after (unnest b lead fields)).after (explode a) := by
  have hnew : a ∉ fields.map (lead ++ ·) := notMem_fields_of_applies ha hne h
  have hrow : ∀ row : Row, ((explode a).rowsAfter frame.columns row).flatMap
        ((unnest b lead fields).rowsAfter frame.columns) =
      ((unnest b lead fields).rowsAfter frame.columns row).flatMap
        ((explode a).rowsAfter (spread b (fields.map (lead ++ ·)) frame.columns)) := by
    intro row
    simp only [rowsAfter, List.flatMap_singleton, List.flatMap_map, ← List.map_eq_flatMap]
    rw [Row.cell_spread_of_mem ha hne hnew]
    refine List.map_congr_left fun item _ => ?_
    rw [Row.cell_insert, if_neg hne.symm, Row.spread_insert hdistinct ha hne hnew]
  have hrows : ((frame.after (explode a)).after (unnest b lead fields)).rows =
      ((frame.after (unnest b lead fields)).after (explode a)).rows := by
    refine List.flatMap_assoc.trans (Eq.trans ?_ List.flatMap_assoc.symm)
    exact List.flatMap_congr fun row _ => hrow row
  exact congrArg (Frame.mk _ · _) hrows

end Operation

namespace Frame

/-! ### Both orders -/

open Operation

variable {frame : Frame} {a b : String}

/-- **Different columns.** Exploding two columns fails in both orders or in none, and where it does
not, both orders give the same rows in some order. Exploding one column and unnesting another one
fails in both orders or in none as well, and both orders give the same frame. -/
theorem explode_commutes (hdistinct : frame.columns.Nodup) (ha : a ∈ frame.columns)
    (hne : a ≠ b) :
    Paired (fun _ _ => True) Shuffled (frame.explode a >>= fun frame => frame.explode b)
        (frame.explode b >>= fun frame => frame.explode a) ∧
      ∀ lead fields,
        Paired (fun _ _ => True) Eq (frame.explode a >>= fun frame => frame.unnest b lead fields)
          (frame.unnest b lead fields >>= fun frame => frame.explode a) := by
  constructor
  · exact perform_paired (.explode a) (.explode b)
      (applies_explode_after_explode hne) (applies_explode_after_explode hne.symm)
      fun _ _ => shuffled_explode_explode hne
  · intro lead fields
    exact perform_paired (.explode a) (.unnest b lead fields)
      (applies_unnest_after_explode hne) (applies_explode_after_unnest ha hne)
      fun _ h => after_explode_unnest hdistinct ha hne h

/-- In sparse records, two columns of lists, and a column of lists next to one of structs. -/
theorem explode_commutes_lists :
    let frame := ofRecords [.object [("a", .array [.string "u", .string "v"]),
        ("b", .array [.string "x", .string "y"])],
      .object [("c", .object [("p", .string "z")]), ("a", .array [.string "w"])]]
    (∃ after after', (frame.explode "a" >>= fun frame => frame.explode "b") = .ok after ∧
        (frame.explode "b" >>= fun frame => frame.explode "a") = .ok after' ∧
        after.rows.map (·.cell "b") =
          [.string "x", .string "y", .string "x", .string "y", .null] ∧
        after.Shuffled after') ∧
      ∃ after, (frame.explode "a" >>= fun frame => frame.unnest "c" "c." ["p"]) = .ok after ∧
        (frame.unnest "c" "c." ["p"] >>= fun frame => frame.explode "a") = .ok after ∧
        after.rows.map (·.cell "c.p") = [.null, .null, .string "z"] := by
  intro frame
  have hdistinct : frame.columns.Nodup := by decide +kernel
  have hmem : "a" ∈ frame.columns := by decide +kernel
  obtain ⟨hexplode, -⟩ := explode_commutes (b := "b") hdistinct hmem (by decide)
  obtain ⟨-, hunnest⟩ := explode_commutes (b := "c") hdistinct hmem (by decide)
  constructor
  · have hcells : (frame.explode "a" >>= fun frame => frame.explode "b").toOption.map
        (fun frame => frame.rows.map (·.cell "b")) =
          some [.string "x", .string "y", .string "x", .string "y", .null] := by decide +kernel
    obtain ⟨after, hafter, hcells⟩ := toOption_map_eq_some_iff.mp hcells
    obtain ⟨after', hafter', hshuffled⟩ := hexplode.exists_ok hafter
    exact ⟨after, after', hafter, hafter', hcells, hshuffled⟩
  · have hcells : (frame.explode "a" >>= fun frame => frame.unnest "c" "c." ["p"]).toOption.map
        (fun frame => frame.rows.map (·.cell "c.p")) =
          some [.null, .null, .string "z"] := by decide +kernel
    obtain ⟨after, hafter, hcells⟩ := toOption_map_eq_some_iff.mp hcells
    exact ⟨after, hafter, (hunnest "c." ["p"]).eq_ok hafter, hcells⟩

end Frame

end NestedRecords
