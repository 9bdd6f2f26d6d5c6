import NestedRecords.Proofs.Inference.Gathering

/-!
# More records, larger types

What is inferred from some records is what they state, taken together. So nothing is lost when
records are added: if all of them have a type, any of them have one, which is below it
(`inferFields_monotone`). The order is that of `Tree.Below`.

The type of some records is not just above the types of the single ones. It is the least type that
is (`below_of_singles`).
-/

namespace NestedRecords

open NestedRecords.Tree NestedRecords.Inference

variable {records kept : List Value} {fields : Fields}

/-- A single record has a type wherever it occurs among records that have one. -/
theorem exists_single_of_inferFields (h : inferFields records = .ok fields) {record : Value}
    (hrecord : record ∈ records) :
    ∃ single, inferFields [record] = .ok single ∧ (struct single).Below (struct fields) := by
  obtain ⟨single, hsingle, hknow⟩ := Gathers.foldlM_sublist not_fieldsKnow_nil
    (fun record _ => gathers_record record) (List.singleton_sublist.mpr hrecord) h
  exact ⟨single, hsingle, below_of_fieldsKnow hknow⟩

/-- **The least type.** What is above the types of the single records is above the type of all. -/
theorem below_of_singles (h : inferFields records = .ok fields) {others : Fields}
    (hothers : ∀ record ∈ records, ∀ single, inferFields [record] = .ok single →
      (struct single).Below (struct others)) :
    (struct fields).Below (struct others) := by
  refine below_of_fieldsKnow fun fact hknown => ?_
  -- a fact about all records is one about some record
  obtain ⟨record, hrecord, hstates⟩ := (fieldsKnow_iff h fact).mp hknown
  obtain ⟨single, hsingle, -⟩ := exists_single_of_inferFields h hrecord
  have hfact : FieldsKnow single fact :=
    (fieldsKnow_iff hsingle fact).mpr ⟨record, List.mem_singleton_self record, hstates⟩
  exact (below_struct_iff.mp (hothers record hrecord single hsingle) fact.1).knows fact.2 hfact

/-- **Monotonicity.** If some records have a type, then all records that are left when some are
taken away have one, and it is below the type of all. -/
theorem inferFields_monotone (h : inferFields records = .ok fields)
    (hkept : kept.Sublist records) :
    ∃ fewer, inferFields kept = .ok fewer ∧ (struct fewer).Below (struct fields) := by
  obtain ⟨fewer, hfewer, hknow⟩ := Gathers.foldlM_sublist not_fieldsKnow_nil
    (fun record _ => gathers_record record) hkept h
  exact ⟨fewer, hfewer, below_of_fieldsKnow hknow⟩

/-- Three records, of which the second one is taken away. It was the only one with a fraction and
with content in a list, so there is an `int64` left of a `float64`, and a field is gone. -/
theorem inferFields_monotone_widened :
    inferFields [.object [("a", .array [.number 1]), ("b", .array [])],
        .object [("a", .array [.number 0.5]), ("b", .array [.string "x"])],
        .object [("c", .object [("d", .number 2)])]] =
      .ok [("a", .list (.scalar .float64)), ("b", .list (.scalar .utf8)),
        ("c", .struct [("d", .scalar .int64)])] ∧
    inferFields [.object [("a", .array [.number 1]), ("b", .array [])],
        .object [("c", .object [("d", .number 2)])]] =
      .ok [("a", .list (.scalar .int64)), ("c", .struct [("d", .scalar .int64)])] ∧
    (struct [("a", .list (.scalar .int64)), ("c", .struct [("d", .scalar .int64)])]).Below
      (struct [("a", .list (.scalar .float64)), ("b", .list (.scalar .utf8)),
        ("c", .struct [("d", .scalar .int64)])]) := by
  have hinfer : inferFields [.object [("a", .array [.number 1]), ("b", .array [])],
      .object [("a", .array [.number 0.5]), ("b", .array [.string "x"])],
      .object [("c", .object [("d", .number 2)])]] =
      .ok [("a", .list (.scalar .float64)), ("b", .list (.scalar .utf8)),
        ("c", .struct [("d", .scalar .int64)])] :=
    toOption_eq_some_iff.mp (by decide +kernel)
  have hfewer : inferFields [.object [("a", .array [.number 1]), ("b", .array [])],
      .object [("c", .object [("d", .number 2)])]] =
      .ok [("a", .list (.scalar .int64)), ("c", .struct [("d", .scalar .int64)])] :=
    toOption_eq_some_iff.mp (by decide +kernel)
  obtain ⟨fewer, hkept, hbelow⟩ :=
    inferFields_monotone hinfer ((List.Sublist.refl _).cons _ |>.cons_cons _)
  obtain rfl := Except.ok.inj (hkept.symm.trans hfewer)
  exact ⟨hinfer, hfewer, hbelow⟩

end NestedRecords
