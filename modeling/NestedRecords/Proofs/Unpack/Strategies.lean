import NestedRecords.Proofs.Unpack.Arrival

/-!
# Both strategies unpack alike

Under either strategy unpacking gives the rows that records flatten to, and these do not depend on a
plan. So the strategies give the same rows, or both fail on a value of another shape.

The plans have to be clear for the records. A deferred plan often is not when an anonymous struct
arrives spread out: the short names of its fields are there from the beginning, and the planner
gives them away all the same.
-/

namespace NestedRecords

open NestedRecords.Tree

/-- **Both strategies.** Where a text has a plan under either strategy and both are clear for some
records, unpacking the records gives the same rows under both, or fails under both on a value of
another shape. -/
theorem unpackRecords_strategies (source : Text) (options : UnpackOptions) {schema : Schema}
    {eager deferred : Plan} (hschema : compile source options.toCompileOptions = .ok schema)
    (heager : Plan.ofSchema schema .eager = .ok eager)
    (hdeferred : Plan.ofSchema schema .deferred = .ok deferred) (records : List Value)
    (hclear : eager.ClearFor records ∧ deferred.ClearFor records) :
    (∃ rows, unpackRecords source records { options with strategy := .eager } = .ok rows ∧
      unpackRecords source records { options with strategy := .deferred } = .ok rows) ∨
    ∃ misfit misfit' : FrameError, misfit.IsMisfit ∧ misfit'.IsMisfit ∧
      unpackRecords source records { options with strategy := .eager } = .error (.frame misfit) ∧
      unpackRecords source records { options with strategy := .deferred } =
        .error (.frame misfit') := by
  have heagerEnds :=
    unpackRecords_ends source { options with strategy := .eager } hschema heager hclear.1 rfl
  have hdeferredEnds :=
    unpackRecords_ends source { options with strategy := .deferred } hschema hdeferred hclear.2 rfl
  -- what decides is whether all records fit, and that is the same for both
  by_cases hall : ∀ record ∈ records,
      FieldsFit (arrival (Frame.ofRecords records).columns schema.fields) record.entries
  · obtain ⟨rows, hrows, -, heq⟩ := heagerEnds.exists_ok fun _ herror => herror.2 hall
    obtain ⟨rows', hrows', -, heq'⟩ := hdeferredEnds.exists_ok fun _ herror => herror.2 hall
    exact .inl ⟨rows, hrows, by rw [hrows', heq, heq']⟩
  · obtain ⟨_, herror, ⟨misfit, hmisfit, rfl⟩, -⟩ :=
      heagerEnds.exists_error fun _ hrows => hall hrows.1
    obtain ⟨_, herror', ⟨misfit', hmisfit', rfl⟩, -⟩ :=
      hdeferredEnds.exists_error fun _ hrows => hall hrows.1
    exact .inr ⟨misfit, misfit', hmisfit, hmisfit', herror, herror'⟩

/-- Under either strategy, a struct in front of an anonymous one that arrives spread out. -/
theorem unpackRecords_strategies_spread :
    unpackRecords (Text.ofString "x: Struct(p: Utf8), Struct(a: Struct(c: Utf8))")
        [.object [("x", .object [("p", .string "u")]), ("a", .object [("c", .string "v")])]]
        { strategy := .eager } = .ok [[("p", .string "u"), ("c", .string "v")]] ∧
    unpackRecords (Text.ofString "x: Struct(p: Utf8), Struct(a: Struct(c: Utf8))")
        [.object [("x", .object [("p", .string "u")]), ("a", .object [("c", .string "v")])]]
        { strategy := .deferred } = .ok [[("p", .string "u"), ("c", .string "v")]] := by
  have hplanned : ((compile (Text.ofString
      "x: Struct(p: Utf8), Struct(a: Struct(c: Utf8))")).toOption.bind fun schema =>
        (Plan.ofSchema schema .eager).toOption.bind fun eager =>
          (Plan.ofSchema schema .deferred).toOption.map fun deferred =>
            decide (eager.Clear ∧ deferred.Clear)) = some true := by
    decide +kernel
  obtain ⟨schema, hschema, hplanned⟩ := Option.bind_eq_some_iff.mp hplanned
  obtain ⟨eager, heager, hplanned⟩ := Option.bind_eq_some_iff.mp hplanned
  obtain ⟨deferred, hdeferred, hclear⟩ := Option.map_eq_some_iff.mp hplanned
  obtain ⟨heagerClear, hdeferredClear⟩ := of_decide_eq_true hclear
  have hrows : unpackRecords (Text.ofString "x: Struct(p: Utf8), Struct(a: Struct(c: Utf8))")
      [.object [("x", .object [("p", .string "u")]), ("a", .object [("c", .string "v")])]]
      { strategy := .eager } = .ok [[("p", .string "u"), ("c", .string "v")]] :=
    toOption_eq_some_iff.mp (by decide +kernel)
  refine ⟨hrows, ?_⟩
  rcases unpackRecords_strategies _ {} (toOption_eq_some_iff.mp hschema)
    (toOption_eq_some_iff.mp heager) (toOption_eq_some_iff.mp hdeferred)
    [.object [("x", .object [("p", .string "u")]), ("a", .object [("c", .string "v")])]]
    ⟨fun _ _ => heagerClear, fun _ _ => hdeferredClear⟩ with
    ⟨rows, heagerRows, hdeferredRows⟩ | ⟨_, _, -, -, herror, -⟩
  · obtain rfl := Except.ok.inj (hrows.symm.trans heagerRows)
    exact hdeferredRows
  · exact absurd (hrows.symm.trans herror) nofun

/-- **Taken names.** Two structs have a field of one name. One of them is anonymous and arrives
spread out, so that the name is taken when the other one is taken apart. The deferred plan wants to
use it there and fails, the eager one has a longer name. -/
theorem unpackRecords_strategies_fail :
    ∃ schema eager deferred,
      compile (Text.ofString "x: Struct(a: Struct(c: Utf8)), Struct(a: Utf8)") = .ok schema ∧
      Plan.ofSchema schema .eager = .ok eager ∧ Plan.ofSchema schema .deferred = .ok deferred ∧
      unpackRecords (Text.ofString "x: Struct(a: Struct(c: Utf8)), Struct(a: Utf8)")
          [.object [("x", .object [("a", .object [("c", .string "u")])]), ("a", .string "v")]]
          { strategy := .eager } = .ok [[("c", .string "u"), ("a", .string "v")]] ∧
      ∃ error, unpackRecords (Text.ofString "x: Struct(a: Struct(c: Utf8)), Struct(a: Utf8)")
          [.object [("x", .object [("a", .object [("c", .string "u")])]), ("a", .string "v")]]
          { strategy := .deferred } = .error error := by
  have hplanned : ((compile (Text.ofString
      "x: Struct(a: Struct(c: Utf8)), Struct(a: Utf8)")).toOption.bind fun schema =>
        (Plan.ofSchema schema .eager).toOption.bind fun _ =>
          (Plan.ofSchema schema .deferred).toOption.map fun _ => ()) = some () := by
    decide +kernel
  obtain ⟨schema, hschema, hplanned⟩ := Option.bind_eq_some_iff.mp hplanned
  obtain ⟨eager, heager, hplanned⟩ := Option.bind_eq_some_iff.mp hplanned
  obtain ⟨deferred, hdeferred, -⟩ := Option.map_eq_some_iff.mp hplanned
  exact ⟨schema, eager, deferred, toOption_eq_some_iff.mp hschema, toOption_eq_some_iff.mp heager,
    toOption_eq_some_iff.mp hdeferred, toOption_eq_some_iff.mp (by decide +kernel),
    toOption_eq_none_iff.mp (by decide +kernel)⟩

end NestedRecords
