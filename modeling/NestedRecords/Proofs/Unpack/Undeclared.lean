import NestedRecords.Proofs.Frame.Records
import NestedRecords.Proofs.Pairing
import NestedRecords.Proofs.Tree.Unwrapping
import NestedRecords.Proofs.Unpack.Correctness

/-!
# Columns that no field declares

A plan begins by dropping every column that it does not want, and it wants columns of declared names
alone. So two lists of records that agree on the declared names leave it with one and the same frame
(`Plan.execute_agree`), and whatever else is in the records, and in whatever order, cannot be told
from the result.

Declared are the names of the fields at the root. An anonymous struct there may come spread out into
the columns of a record, and therefore its fields count too, and theirs if one of them is an
anonymous struct again (`Tree.Declares`).
-/

namespace NestedRecords

open List NestedRecords.Tree

/-! ### Declared names -/

namespace Tree

/-- **Declared names.** The names of some fields, and what an anonymous struct among them
declares. -/
inductive Declares : Fields → String → Prop
  | field {fields : Fields} {name : String} {type : Tree} (h : (name, type) ∈ fields) :
    Declares fields name
  | spread {fields inner : Fields} {name : String} (h : ("", struct inner) ∈ fields)
      (inside : Declares inner name) :
    Declares fields name

theorem Declares.mono {fields others : Fields} (hsub : fields ⊆ others) {name : String}
    (h : Declares fields name) : Declares others name := by
  cases h with
  | field h => exact .field (hsub h)
  | spread h inside => exact .spread (hsub h) inside

mutual

theorem declares_of_mem_unwrap {name column : String} : ∀ {type : Tree},
    column ∈ (unwrap name type).map Prod.fst → Declares [(name, type)] column
  | .scalar _, h => by
    obtain rfl := List.mem_singleton.mp h
    exact .field List.mem_cons_self
  | .list _, h => by
    obtain rfl := List.mem_singleton.mp h
    exact .field List.mem_cons_self
  | .struct inner, h => by
    rw [unwrap] at h
    split at h
    · rename_i hname
      exact hname ▸ .spread List.mem_cons_self (declares_of_mem_unwrapFields h)
    · obtain rfl := List.mem_singleton.mp h
      exact .field List.mem_cons_self

/-- The names that are spread out are declared. -/
theorem declares_of_mem_unwrapFields {column : String} : ∀ {fields : List (String × Tree)},
    column ∈ (unwrapFields fields).map Prod.fst → Declares fields column
  | [], h => by contradiction
  | (name, type) :: rest, h => by
    rw [unwrapFields, List.map_append] at h
    rcases List.mem_append.mp h with h | h
    · exact (declares_of_mem_unwrap h).mono (List.cons_subset_cons _ (List.nil_subset _))
    · exact (declares_of_mem_unwrapFields h).mono (List.subset_cons_self _ _)

end

/-- However the fields arrive, they are read from columns of declared names. -/
theorem declares_of_mem_arrival {present : List String} {fields : Fields} {column : String}
    (h : column ∈ (arrival present fields).map Prod.fst) : Declares fields column := by
  unfold arrival at h
  split at h
  · obtain ⟨field, hfield, rfl⟩ := List.mem_map.mp h
    exact .field hfield
  · exact declares_of_mem_unwrapFields h

theorem Wrapped.declares {fields : Fields} (h : Wrapped fields) : Declares fields "" := by
  obtain ⟨inner, hinner⟩ := h
  exact .field hinner

end Tree

/-! ### Records that agree -/

/-- **Agreeing records.** Records are the same, or objects with the same members of some names. The
other members may be any, and all of them may come in any order. -/
inductive Value.AgreeOn (declared : String → Prop) : Value → Value → Prop
  | same (value : Value) : AgreeOn declared value value
  | object {members others : List (String × Value)}
      (h : ∀ name, declared name → members.lookup name = others.lookup name) :
    AgreeOn declared (.object members) (.object others)

theorem Value.AgreeOn.lookup {declared : String → Prop} {record other : Value}
    (h : record.AgreeOn declared other) {name : String} (hname : declared name) :
    record.entries.lookup name = other.entries.lookup name := by
  cases h with
  | same => rfl
  | object h => exact h name hname

namespace Frame

variable {declared : String → Prop} {records others : List Value}

/-- A declared name is a column of both lists of records or of none. -/
theorem mem_columns_agree (h : Forall₂ (Value.AgreeOn declared) records others) {name : String}
    (hname : declared name) :
    name ∈ (ofRecords records).columns ↔ name ∈ (ofRecords others).columns := by
  have hlookup : records.map (fun record => record.entries.lookup name) =
      others.map fun record => record.entries.lookup name :=
    map_eq_map_of_forall₂ (fun _ _ hagree => hagree.lookup hname) h
  have hsome : ∀ records : List Value, name ∈ (ofRecords records).columns ↔
      ∃ found ∈ records.map (fun record => record.entries.lookup name), found.isSome :=
    fun records => by
      simp only [mem_columns_ofRecords_iff, List.mem_map, exists_exists_and_eq_and,
        Assoc.isSome_lookup_iff]
  rw [hsome, hsome, hlookup]

/-- Where only columns of declared names are selected, the same frame is left. -/
theorem select_agree (h : Forall₂ (Value.AgreeOn declared) records others) {columns : List String}
    (hcolumns : ∀ column ∈ columns, declared column)
    (hpresent : columns ⊆ (ofRecords records).columns) :
    (ofRecords records).select columns = (ofRecords others).select columns := by
  have hother : columns ⊆ (ofRecords others).columns := fun column hmem =>
    (mem_columns_agree h (hcolumns column hmem)).mp (hpresent hmem)
  have hrow : ∀ record other : Value, record.AgreeOn declared other →
      (columns.map fun column => (column, Row.cell record.entries column)) =
        columns.map fun column => (column, Row.cell other.entries column) :=
    fun record other hagree => List.map_congr_left fun column hmem => by
      rw [Row.cell, Row.cell, hagree.lookup (hcolumns column hmem)]
  have hrows : ((ofRecords records).rows.map fun row =>
        columns.map fun column => (column, row.cell column)) =
      (ofRecords others).rows.map fun row =>
        columns.map fun column => (column, row.cell column) := by
    rw [ofRecords, ofRecords, List.map_map, List.map_map]
    exact map_eq_map_of_forall₂ hrow h
  rw [select_eq_ok fun column hmem => hpresent hmem, select_eq_ok fun column hmem => hother hmem,
    hrows]
  rfl

end Frame

/-! ### Plans -/

namespace Plan

/-- The columns a plan begins with have declared names. -/
theorem declares_of_mem_sourceColumns {plan : Plan} {present : List String} {column : String}
    (h : column ∈ plan.sourceColumns present) : Declares plan.fields column ∧ column ∈ present := by
  rw [sourceColumns, fieldSources_eq, List.mem_eraseDups] at h
  obtain ⟨harrival, hpresent⟩ := List.mem_filter.mp h
  exact ⟨declares_of_mem_arrival harrival, of_decide_eq_true hpresent⟩

/-- **Running a plan.** From records that agree on the declared names, a plan makes the same
frame, or fails on them alike. -/
theorem execute_agree (plan : Plan) {records others : List Value}
    (h : Forall₂ (Value.AgreeOn (Declares plan.fields)) records others) :
    plan.execute Frame.engine (.ofRecords records) =
      plan.execute Frame.engine (.ofRecords others) := by
  have hsources : plan.sourceColumns (Frame.ofRecords records).columns =
      plan.sourceColumns (Frame.ofRecords others).columns := by
    have harrival : arrival (Frame.ofRecords records).columns plan.fields =
        arrival (Frame.ofRecords others).columns plan.fields :=
      arrival_congr fun hwrapped => Frame.mem_columns_agree h hwrapped.declares
    rw [sourceColumns, sourceColumns, fieldSources_eq, fieldSources_eq, ← harrival]
    refine congrArg List.eraseDups (List.filter_congr fun column hmem => ?_)
    rw [decide_eq_decide]
    exact Frame.mem_columns_agree h (declares_of_mem_arrival hmem)
  have hselect := Frame.select_agree h
    (fun column hmem => (declares_of_mem_sourceColumns hmem).1)
    (fun column hmem => (declares_of_mem_sourceColumns hmem).2)
  rw [execute_eq, execute_eq]
  change
    ((Frame.ofRecords records).select (plan.sourceColumns (Frame.ofRecords records).columns) >>=
      _) =
    ((Frame.ofRecords others).select (plan.sourceColumns (Frame.ofRecords others).columns) >>= _)
  rw [hselect, hsources]

end Plan

/-! ### Unpacking -/

/-- **Undeclared columns do not show.** Let two lists of records agree, record by record, on the
names that a schema declares. Then unpacking gives the same rows for both, or fails for both in the
same way. -/
theorem unpackRecords_agree {source : Text} {options : UnpackOptions} {schema : Schema}
    (hschema : compile source options.toCompileOptions = .ok schema) {records others : List Value}
    (h : Forall₂ (Value.AgreeOn (Declares schema.fields)) records others) :
    unpackRecords source records options = unpackRecords source others options := by
  cases hplan : Plan.ofSchema schema options.strategy with
  | error error =>
    rw [unpackRecords, unpackRecords, unpack, unpack, hschema]
    change Frame.records <$> ((Plan.ofSchema schema options.strategy).mapError _ >>= _) =
      Frame.records <$> ((Plan.ofSchema schema options.strategy).mapError _ >>= _)
    rw [hplan]
    rfl
  | ok plan =>
    have hexecutable : plan.Executable schema :=
      (Plan.ofSchema_ends (coherent_of_compile hschema) options.strategy).of_eq_ok hplan
    rw [unpackRecords_eq hschema hplan, unpackRecords_eq hschema hplan,
      plan.execute_agree (hexecutable.fields ▸ h)]

/-- Next to a struct that is unnested and to one that comes spread out: columns that are called like
the field of the first one, by its short name, its path and its new name. -/
theorem unpackRecords_agree_extra :
    unpackRecords (Text.ofString "json: Struct(foo=bar: Utf8), Struct(a: Utf8)")
        [.object [("foo", .string "x"), ("bar", .null), ("a", .string "v"),
          ("json.foo", .array []), ("json", .object [("foo", .string "u")])]]
        { strategy := .deferred } =
      .ok [[("bar", .string "u"), ("a", .string "v")]] := by
  have hcompiled : ((compile (Text.ofString
      "json: Struct(foo=bar: Utf8), Struct(a: Utf8)")).toOption.map Schema.fields) =
      some [("json", .struct [("foo", .scalar .utf8)]), ("", .struct [("a", .scalar .utf8)])] := by
    decide +kernel
  obtain ⟨schema, hschema, hfields⟩ := Option.map_eq_some_iff.mp hcompiled
  have hagree : Forall₂ (Value.AgreeOn (Declares schema.fields))
      [.object [("foo", .string "x"), ("bar", .null), ("a", .string "v"),
        ("json.foo", .array []), ("json", .object [("foo", .string "u")])]]
      [.object [("json", .object [("foo", .string "u")]), ("a", .string "v")]] := by
    refine .cons (.object fun name hname => ?_) .nil
    rw [hfields] at hname
    have hdeclared : name = "json" ∨ name = "" ∨ name = "a" := by
      cases hname with
      | field h =>
        rcases List.mem_pair.mp h with h | h
        · exact .inl (Prod.mk.inj h).1
        · exact .inr (.inl (Prod.mk.inj h).1)
      | spread h inside =>
        obtain rfl : _ = [("a", Tree.scalar .utf8)] := by simpa using h
        cases inside with
        | field h => exact .inr (.inr (Prod.mk.inj (List.mem_singleton.mp h)).1)
        | spread h => simp at h
    rcases hdeclared with rfl | rfl | rfl <;> rfl
  have hcompile : compile (Text.ofString "json: Struct(foo=bar: Utf8), Struct(a: Utf8)")
      ({ strategy := .deferred } : UnpackOptions).toCompileOptions = .ok schema :=
    toOption_eq_some_iff.mp hschema
  rw [unpackRecords_agree hcompile hagree]
  exact toOption_eq_some_iff.mp (by decide +kernel)

end NestedRecords
