import NestedRecords.Proofs.Unpack.Arrival

/-!
# Unpacking batch by batch

Records are unpacked one after the other: the rows of a list of records are those of its front part
followed by those of the rest. What the records share is only how an anonymous struct at the root
arrives, which a single record can change for all of them. So the two parts have to agree on that.
-/

namespace NestedRecords

open NestedRecords.Tree

/-- **Batches.** Where two lists of records hold an anonymous struct at the root in the same way, as
a whole or spread out, and a plan is clear for them, unpacking both together gives the rows of the
first list and then those of the second, if it gives rows for each of them alone. -/
theorem unpackRecords_append (source : Text) (options : UnpackOptions) {schema : Schema}
    {plan : Plan} (hschema : compile source options.toCompileOptions = .ok schema)
    (hplan : Plan.ofSchema schema options.strategy = .ok plan) (records others : List Value)
    (halike : Wrapped schema.fields →
      ("" ∈ (Frame.ofRecords records).columns ↔ "" ∈ (Frame.ofRecords others).columns))
    (hclear : plan.ClearFor (records ++ others)) {rows more : List Row}
    (hrecords : unpackRecords source records options = .ok rows)
    (hothers : unpackRecords source others options = .ok more) :
    unpackRecords source (records ++ others) options = .ok (rows ++ more) := by
  have hfields : plan.fields = schema.fields :=
    ((Plan.ofSchema_ends (coherent_of_compile hschema) options.strategy).of_eq_ok hplan).fields
  -- a column without a name in one of the lists is in both, and so in the two together
  have hfirst : Wrapped schema.fields → ("" ∈ (Frame.ofRecords records).columns ↔
      "" ∈ (Frame.ofRecords (records ++ others)).columns) := fun hwrapped => by
    rw [Frame.mem_columns_append_iff, ← halike hwrapped, or_self]
  have hsecond : Wrapped schema.fields → ("" ∈ (Frame.ofRecords others).columns ↔
      "" ∈ (Frame.ofRecords (records ++ others)).columns) := fun hwrapped =>
    (halike hwrapped).symm.trans (hfirst hwrapped)
  have hclearFirst : plan.ClearFor records := fun hwrapped habsent =>
    hclear hwrapped ((not_congr (hfirst (hfields ▸ hwrapped))).mp habsent)
  have hclearSecond : plan.ClearFor others := fun hwrapped habsent =>
    hclear hwrapped ((not_congr (hsecond (hfields ▸ hwrapped))).mp habsent)
  obtain ⟨hfit, rfl⟩ := (unpackRecords_ends source options hschema hplan hclearFirst
    (arrival_congr hfirst)).of_eq_ok hrecords
  obtain ⟨hotherFit, rfl⟩ := (unpackRecords_ends source options hschema hplan hclearSecond
    (arrival_congr hsecond)).of_eq_ok hothers
  have hboth := List.forall_mem_append.mpr ⟨hfit, hotherFit⟩
  obtain ⟨result, hresult, -, rfl⟩ :=
    (unpackRecords_ends source options hschema hplan hclear rfl).exists_ok
      fun _ herror => herror.2 hboth
  rw [hresult, List.flatMap_append, List.map_append]

/-- Two lists of records that both hold an anonymous struct spread out. -/
theorem unpackRecords_append_spread :
    unpackRecords (Text.ofString "id: Utf8, Struct(a: List(Utf8))")
        [.object [("id", .string "x"), ("a", .array [.string "y", .string "z"])],
          .object [("a", .array [])]] =
      .ok [[("id", .string "x"), ("a", .string "y")], [("id", .string "x"), ("a", .string "z")],
        [("id", .null), ("a", .null)]] := by
  have hplanned : ((compile (Text.ofString "id: Utf8, Struct(a: List(Utf8))")).toOption.bind
      fun schema => (Plan.ofSchema schema .eager).toOption.map fun plan => decide plan.Clear) =
        some true := by
    decide +kernel
  obtain ⟨schema, hschema, hplanned⟩ := Option.bind_eq_some_iff.mp hplanned
  obtain ⟨plan, hplan, hclear⟩ := Option.map_eq_some_iff.mp hplanned
  have hrecords : unpackRecords (Text.ofString "id: Utf8, Struct(a: List(Utf8))")
      [.object [("id", .string "x"), ("a", .array [.string "y", .string "z"])]] =
      .ok [[("id", .string "x"), ("a", .string "y")], [("id", .string "x"), ("a", .string "z")]] :=
    toOption_eq_some_iff.mp (by decide +kernel)
  have hothers : unpackRecords (Text.ofString "id: Utf8, Struct(a: List(Utf8))")
      [.object [("a", .array [])]] = .ok [[("id", .null), ("a", .null)]] :=
    toOption_eq_some_iff.mp (by decide +kernel)
  have hboth := unpackRecords_append _ {} (toOption_eq_some_iff.mp hschema)
    (toOption_eq_some_iff.mp hplan) _ _ (fun _ => by decide +kernel)
    (fun _ _ => of_decide_eq_true hclear) hrecords hothers
  rw [List.singleton_append] at hboth
  exact hboth

/-- **One record changes the others.** A record that is no object stands in a column without a name.
With it among the records, the fields of an anonymous struct are no longer taken from the columns in
which the other records have them. -/
theorem unpackRecords_append_fails :
    unpackRecords (Text.ofString "Struct(a: Utf8)") [.object [("a", .string "u")]] =
      .ok [[("a", .string "u")]] ∧
    unpackRecords (Text.ofString "Struct(a: Utf8)") [.null] = .ok [[("a", .null)]] ∧
    unpackRecords (Text.ofString "Struct(a: Utf8)") ([.object [("a", .string "u")]] ++ [.null]) =
      .ok [[("a", .null)], [("a", .null)]] :=
  ⟨toOption_eq_some_iff.mp (by decide +kernel), toOption_eq_some_iff.mp (by decide +kernel),
    toOption_eq_some_iff.mp (by decide +kernel)⟩

end NestedRecords
