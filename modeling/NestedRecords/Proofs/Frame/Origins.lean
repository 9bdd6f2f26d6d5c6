import NestedRecords.Proofs.Frame.Regularity

/-!
# Where columns come from

A frame remembers the datatypes of its columns of nulls apart from its columns, by name. So the
question is whether a name stands for the same column as when it was remembered. `Origin` says where
a column comes from, and `Operation.originsAfter` follows the columns of a frame through an
operation by what happens to the columns alone; it does not look at what is remembered.

What is remembered goes along with a renaming, and a column of nulls is never without a datatype.
But columns that are dropped or taken apart leave theirs behind. As long as no operation makes a
column of such a name (`Operation.Revives`), datatypes are those of the origins. Otherwise a field
inherits the datatype of a column of nulls that was dropped, and a column that is renamed may even
lose its own to it (`Frame.IsRead.datatypes_follow_origins_fails`).
-/

namespace NestedRecords

/-- Where a column comes from. -/
inductive Origin
  /-- The records have it. -/
  | records
  /-- It is a field of structs that were taken apart. -/
  | struct
  /-- It was added as a column of nulls. -/
  | nulls (datatype : Datatype)
  deriving DecidableEq, Repr

/-- The datatype that a column was added with. -/
def Origin.datatype? : Origin → Option Datatype
  | nulls datatype => some datatype
  | _ => none

namespace Operation

/-- The columns of a frame after an operation, with their origins. -/
def originsAfter : Operation → List (String × Origin) → List (String × Origin)
  | explode _, origins => origins
  | unnest column lead fields, origins => origins.flatMap fun existing =>
      if existing.1 = column then fields.map fun field => (lead ++ field, .struct) else [existing]
  | rename mapping, origins => origins.map fun existing => (renamed mapping existing.1, existing.2)
  | select kept, origins => kept.map fun column => (column, (origins.lookup column).getD .records)
  | addNulls column datatype, origins => origins ++ [(column, .nulls datatype)]

/-- **Reviving a datatype.** A field is given a name that a datatype is remembered under, or a
column is renamed like a name that has a datatype but is no longer a column. -/
def Revives (frame : Frame) : Operation → Prop
  | unnest _ lead fields => ∃ field ∈ fields, lead ++ field ∈ Assoc.keys frame.datatypes
  | rename mapping => ∃ gone ∈ Assoc.keys frame.datatypes, gone ∉ frame.columns ∧
      renamed mapping gone ∈ frame.columns.map (renamed mapping)
  | _ => False

instance (frame : Frame) : DecidablePred (Revives frame)
  | unnest _ lead fields =>
    inferInstanceAs (Decidable (∃ field ∈ fields, lead ++ field ∈ Assoc.keys frame.datatypes))
  | rename mapping =>
    inferInstanceAs (Decidable (∃ gone ∈ Assoc.keys frame.datatypes, gone ∉ frame.columns ∧
      renamed mapping gone ∈ frame.columns.map (renamed mapping)))
  | explode _ => isFalse id
  | select _ => isFalse id
  | addNulls _ _ => isFalse id

end Operation

namespace Frame

/-- None of some operations in turn revives a datatype. -/
def RevivesNone (frame : Frame) : List Operation → Prop
  | [] => True
  | operation :: rest => ¬operation.Revives frame ∧ (frame.after operation).RevivesNone rest

instance decidableRevivesNone : (frame : Frame) → (operations : List Operation) →
    Decidable (frame.RevivesNone operations)
  | _, [] => isTrue trivial
  | frame, operation :: rest =>
    @instDecidableAnd _ _ inferInstance (decidableRevivesNone (frame.after operation) rest)

/-- The columns after some operations in turn, with their origins. -/
def originsAfter (frame : Frame) (operations : List Operation) : List (String × Origin) :=
  operations.foldl (fun origins operation => operation.originsAfter origins)
    (frame.columns.map fun column => (column, .records))

/-- **Columns with their origins.** The columns of nulls among them have some datatype. -/
structure HasOrigins (frame : Frame) (origins : List (String × Origin)) : Prop where
  columns : origins.map Prod.fst = frame.columns
  keys : (Assoc.keys frame.datatypes).Nodup
  nulls : ∀ column ∈ origins, column.2.datatype? ≠ none → frame.datatypeOf? column.1 ≠ none

/-- **Datatypes that follow the origins.** Every column has the datatype that it was added with, and
a column that was not added has none. -/
def FollowsOrigins (frame : Frame) (origins : List (String × Origin)) : Prop :=
  ∀ column ∈ origins, frame.datatypeOf? column.1 = column.2.datatype?

variable {frame : Frame} {operation : Operation} {origins : List (String × Origin)}

/-! ### At the start -/

theorem IsRead.datatypes_eq (h : frame.IsRead) : frame.datatypes = [] := by
  cases h with
  | records records => rfl
  | ndjson h =>
    obtain ⟨records, -, hframe⟩ := bind_eq_ok_iff.mp h
    obtain rfl := Except.ok.inj hframe
    rfl

/-- Nothing is remembered of a frame that was read, and its columns are those of the records. -/
theorem IsRead.followsOrigins (h : frame.IsRead) :
    frame.FollowsOrigins (frame.originsAfter []) := by
  intro column hcolumn
  obtain ⟨name, -, rfl⟩ := List.mem_map.mp hcolumn
  rw [datatypeOf?, h.datatypes_eq]
  rfl

theorem IsRead.hasOrigins (h : frame.IsRead) : frame.HasOrigins (frame.originsAfter []) where
  columns := by
    rw [originsAfter, List.foldl_nil, List.map_map]
    exact List.map_id _
  keys := by
    rw [h.datatypes_eq]
    exact List.nodup_nil
  nulls column hcolumn hnulls := by
    rw [h.followsOrigins column hcolumn]
    exact hnulls

/-! ### One operation -/

namespace HasOrigins

theorem mem_columns (h : frame.HasOrigins origins) {column : String × Origin}
    (hmem : column ∈ origins) : column.1 ∈ frame.columns :=
  h.columns ▸ List.mem_map_of_mem hmem

/-- A column that is kept keeps its origin. -/
theorem mem_of_select (h : frame.HasOrigins origins) {column : String}
    (hmem : column ∈ frame.columns) :
    (column, (origins.lookup column).getD .records) ∈ origins := by
  have hkey : column ∈ Assoc.keys origins := (congrArg (column ∈ ·) h.columns).mpr hmem
  obtain ⟨origin, horigin⟩ := Option.isSome_iff_exists.mp (Assoc.isSome_lookup_iff.mpr hkey)
  rw [horigin]
  exact Assoc.mem_of_lookup_eq_some horigin

/-- Adding a column changes no datatype of the others. -/
theorem datatypeOf?_addNulls (h : frame.HasOrigins origins) {added : String}
    (hnew : added ∉ frame.columns) (datatype : Datatype) {column : String × Origin}
    (hmem : column ∈ origins) :
    (frame.after (.addNulls added datatype)).datatypeOf? column.1 = frame.datatypeOf? column.1 := by
  have hne : column.1 ≠ added := fun heq => hnew (heq ▸ h.mem_columns hmem)
  exact (Assoc.lookup_insert added datatype frame.datatypes column.1).trans (if_neg hne)

/-- A column that has a datatype has one under its new name. -/
theorem datatypeOf?_rename_ne_none (mapping : List (String × String)) {column : String}
    (h : frame.datatypeOf? column ≠ none) :
    (frame.after (.rename mapping)).datatypeOf? (renamed mapping column) ≠ none := by
  rw [datatypeOf?, ← Option.isSome_iff_ne_none, Assoc.isSome_lookup_iff] at h ⊢
  refine Assoc.mem_keys_ofList_iff.mpr ?_
  rw [Assoc.keys_rename]
  exact List.mem_map_of_mem h

/-- A column takes its datatype along to its new name, if none is revived under it. -/
theorem datatypeOf?_rename (h : frame.HasOrigins origins) {mapping : List (String × String)}
    (hdistinct : (frame.columns.map (renamed mapping)).Nodup)
    (hnone : ¬(Operation.rename mapping).Revives frame) {column : String}
    (hmem : column ∈ frame.columns) :
    (frame.after (.rename mapping)).datatypeOf? (renamed mapping column) =
      frame.datatypeOf? column := by
  refine Assoc.lookup_ofList_map h.keys fun key hkey heq => ?_
  -- a name that is still a column is renamed apart from this one, and no other one comes back
  by_cases hcolumn : key ∈ frame.columns
  · exact List.inj_on_of_nodup_map hdistinct hcolumn hmem heq
  · exact absurd ⟨key, hkey, hcolumn, heq ▸ List.mem_map_of_mem hmem⟩ hnone

/-- **What an operation can do.** A column was there before, with the same origin and with its
datatype, unless another one was revived in its place; or it is new, and then it has the datatype of
its origin, unless one was revived. -/
theorem mem_originsAfter (h : frame.HasOrigins origins) (happlies : operation.Applies frame)
    {column : String × Origin} (hcolumn : column ∈ operation.originsAfter origins) :
    (∃ existing ∈ origins, existing.2 = column.2 ∧
      (frame.datatypeOf? existing.1 ≠ none → (frame.after operation).datatypeOf? column.1 ≠ none) ∧
      (¬operation.Revives frame →
        (frame.after operation).datatypeOf? column.1 = frame.datatypeOf? existing.1)) ∨
    (column.2.datatype? ≠ none ∨ ¬operation.Revives frame →
      (frame.after operation).datatypeOf? column.1 = column.2.datatype?) := by
  cases operation with
  | explode exploded => exact .inl ⟨column, hcolumn, rfl, id, fun _ => rfl⟩
  | unnest unnested lead fields =>
    obtain ⟨existing, hexisting, hcolumn⟩ := List.mem_flatMap.mp hcolumn
    split at hcolumn
    · obtain ⟨field, hfield, rfl⟩ := List.mem_map.mp hcolumn
      refine .inr fun hnone => Assoc.lookup_eq_none_iff.mpr fun hkey => ?_
      exact hnone.elim (absurd rfl) fun hnone => hnone ⟨field, hfield, hkey⟩
    · obtain rfl := List.mem_singleton.mp hcolumn
      exact .inl ⟨column, hexisting, rfl, id, fun _ => rfl⟩
  | rename mapping =>
    obtain ⟨existing, hexisting, rfl⟩ := List.mem_map.mp hcolumn
    exact .inl ⟨existing, hexisting, rfl, datatypeOf?_rename_ne_none mapping,
      fun hnone => h.datatypeOf?_rename happlies hnone (h.mem_columns hexisting)⟩
  | select kept =>
    obtain ⟨name, hname, rfl⟩ := List.mem_map.mp hcolumn
    exact .inl ⟨_, h.mem_of_select (happlies name hname), rfl, id, fun _ => rfl⟩
  | addNulls added datatype =>
    rcases List.mem_append.mp hcolumn with hcolumn | hcolumn
    · have hkept := h.datatypeOf?_addNulls happlies datatype hcolumn
      exact .inl ⟨column, hcolumn, rfl, fun hsome => hkept ▸ hsome, fun _ => hkept⟩
    · obtain rfl := List.mem_singleton.mp hcolumn
      exact .inr fun _ => (Assoc.lookup_insert added datatype _ added).trans (if_pos rfl)

theorem map_fst_originsAfter (h : frame.HasOrigins origins) (operation : Operation) :
    (operation.originsAfter origins).map Prod.fst = operation.columnsAfter frame.columns := by
  rw [← h.columns]
  cases operation with
  | explode column => rfl
  | unnest column lead fields =>
    rw [Operation.originsAfter, Operation.columnsAfter, spread, List.map_flatMap,
      List.flatMap_map]
    refine congrArg origins.flatMap (funext fun existing => ?_)
    split
    · rw [List.map_map]
      rfl
    · rfl
  | rename mapping =>
    rw [Operation.originsAfter, Operation.columnsAfter, List.map_map, List.map_map]
    rfl
  | select kept =>
    rw [Operation.originsAfter, List.map_map]
    exact List.map_id kept
  | addNulls column datatype => exact List.map_append

theorem nodup_keys_datatypesAfter (h : frame.HasOrigins origins) (operation : Operation) :
    (Assoc.keys (operation.datatypesAfter frame.datatypes)).Nodup := by
  cases operation with
  | rename mapping => exact Assoc.nodup_keys_ofList _
  | addNulls column datatype => exact Assoc.nodup_keys_insert column datatype h.keys
  | _ => exact h.keys

/-- **Step lemma.** Columns of nulls keep some datatype. -/
theorem after (h : frame.HasOrigins origins) (happlies : operation.Applies frame) :
    (frame.after operation).HasOrigins (operation.originsAfter origins) where
  columns := h.map_fst_originsAfter operation
  keys := h.nodup_keys_datatypesAfter operation
  nulls column hcolumn hnulls := by
    rcases h.mem_originsAfter happlies hcolumn with ⟨existing, hexisting, horigin, hsome, -⟩ | hnew
    · exact hsome (h.nulls existing hexisting (horigin ▸ hnulls))
    · exact hnew (.inl hnulls) ▸ hnulls

end HasOrigins

/-- **Step lemma.** Datatypes go on following the origins when none is revived. -/
theorem FollowsOrigins.after (h : frame.FollowsOrigins origins)
    (horigins : frame.HasOrigins origins) (happlies : operation.Applies frame)
    (hnone : ¬operation.Revives frame) :
    (frame.after operation).FollowsOrigins (operation.originsAfter origins) := by
  intro column hcolumn
  rcases horigins.mem_originsAfter happlies hcolumn with
    ⟨existing, hexisting, horigin, -, hkept⟩ | hnew
  · rw [hkept hnone, h existing hexisting, horigin]
  · exact hnew (.inr hnone)

/-! ### Any number of operations -/

/-- **Run lemma.** -/
theorem HasOrigins.run {operations : List Operation} : ∀ {start frame : Frame}
    {origins : List (String × Origin)}, start.HasOrigins origins →
    start.performAll operations = .ok frame →
      let after := operations.foldl
        (fun origins operation => operation.originsAfter origins) origins
      frame.HasOrigins after ∧
        (start.FollowsOrigins origins → start.RevivesNone operations →
          frame.FollowsOrigins after) := by
  induction operations with
  | nil =>
    intro start frame origins horigins hrun
    obtain rfl := Except.ok.inj hrun
    exact ⟨horigins, fun h _ => h⟩
  | cons operation rest ih =>
    intro start frame origins horigins hrun
    obtain ⟨happlies, hrun⟩ := performAll_cons_eq_ok_iff.mp hrun
    obtain ⟨hafter, hfollows⟩ := ih (horigins.after happlies) hrun
    exact ⟨hafter, fun h hnone => hfollows (h.after horigins happlies hnone.1) hnone.2⟩

/-- **Datatypes follow columns.** After any operations on a frame that was read, every column of
nulls still has a datatype. If none of the operations has revived a datatype, that of every column
is the one it was added with, however it has been renamed since, and the columns of the records and
of structs have none. -/
theorem IsRead.datatypes_follow_origins {start frame : Frame} (h : start.IsRead)
    {operations : List Operation}
    (hrun : start.performAll operations = .ok frame) :
    let origins := start.originsAfter operations
    origins.map Prod.fst = frame.columns ∧
      (∀ column ∈ origins, column.2.datatype? ≠ none → frame.datatypeOf? column.1 ≠ none) ∧
      (start.RevivesNone operations →
        ∀ column ∈ origins, frame.datatypeOf? column.1 = column.2.datatype?) := by
  obtain ⟨horigins, hfollows⟩ := h.hasOrigins.run hrun
  exact ⟨horigins.columns, horigins.nulls, hfollows h.followsOrigins⟩

/-- A column of nulls that is renamed together with one of the records, both to the name of the
other one, and selected along with a column of structs, which is then taken apart. -/
theorem IsRead.datatypes_follow_origins_swap :
    let start := ofRecords
      [.object [("b", .object [("a", .string "x")]), ("c", .string "y")]]
    let operations : List Operation := [.addNulls "n" .int8,
      .rename [("n", "c"), ("c", "n")], .select ["c", "b"], .unnest "b" "" ["a"], .explode "c"]
    ∃ frame, start.performAll operations = .ok frame ∧
      start.originsAfter operations = [("c", .nulls .int8), ("a", .struct)] ∧
      frame.columns = ["c", "a"] ∧ frame.datatypeOf? "c" = some .int8 ∧
      frame.datatypeOf? "a" = none := by
  intro start operations
  have hread : start.IsRead := .records _
  have hsome : (start.performAll operations).toOption.isSome := by decide +kernel
  obtain ⟨frame, hframe⟩ := Option.isSome_iff_exists.mp hsome
  have hrun := toOption_eq_some_iff.mp hframe
  have horigins : start.originsAfter operations = [("c", .nulls .int8), ("a", .struct)] := by
    decide +kernel
  obtain ⟨hcolumns, -, hfollows⟩ := hread.datatypes_follow_origins hrun
  have hdatatypes := hfollows (by decide +kernel)
  rw [horigins] at hcolumns hdatatypes
  exact ⟨frame, hrun, horigins, hcolumns.symm, hdatatypes ("c", .nulls .int8) (by simp),
    hdatatypes ("a", .struct) (by simp)⟩

/-- A field of structs that gets the datatype of a column of nulls, which was dropped before, and a
column of nulls that gets that of another one by being renamed like it. -/
theorem IsRead.datatypes_follow_origins_fails :
    let start := ofRecords [.object [("b", .object [("a", .string "x")])]]
    let operations : List Operation :=
      [.addNulls "a" .int8, .select ["b"], .unnest "b" "" ["a"]]
    let others : List Operation :=
      [.addNulls "c" .int8, .addNulls "d" .utf8, .select ["c"], .rename [("c", "d")]]
    start.IsRead ∧
      (start.performAll operations).toOption.map
          (fun frame => (frame.columns, frame.records, frame.datatypeOf? "a")) =
        some (["a"], [[("a", .string "x")]], some .int8) ∧
      start.originsAfter operations = [("a", .struct)] ∧
      (start.performAll others).toOption.map
          (fun frame => (frame.columns, frame.datatypeOf? "d")) = some (["d"], some .utf8) ∧
      start.originsAfter others = [("d", .nulls .int8)] :=
  ⟨.records _, by decide +kernel, by decide +kernel, by decide +kernel, by decide +kernel⟩

end Frame

end NestedRecords
