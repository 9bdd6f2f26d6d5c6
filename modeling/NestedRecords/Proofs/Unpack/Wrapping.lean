import NestedRecords.Proofs.Frame.Operations
import NestedRecords.Proofs.Schema.Wrapping
import NestedRecords.Proofs.Tree.Unwrapping
import NestedRecords.Proofs.Unpack.Correctness

/-!
# Unpacking by a wrapped schema

Records that are objects hold an anonymous struct spread out, so one around a whole schema makes no
difference to them. Its plan has one step more than that of the schema, in front, which takes the
struct apart (`Plan.ofSchema_wrapped`). Without a column for the struct the fields are read from the
columns of the records as before, and the step is skipped (`Plan.execute_wrapped`).
-/

namespace NestedRecords

open NestedRecords.Tree

/-! ### The plan -/

/-- A plan that first takes apart the anonymous struct around its fields. -/
def Plan.wrapped (plan : Plan) : Plan :=
  { plan with
    fields := [("", .struct plan.fields)]
    steps := .unnest "" "" (plan.fields.map Prod.fst) :: plan.steps }

namespace Unfolding

/-- Where a struct has the only column, its fields need no lead. -/
theorem chooseLead_alone (separator : String) (strategy : Strategy) (column : String)
    (fields : Fields) : chooseLead [column] column fields (leadsOf separator strategy "") =
      .ok "" := by
  have hfree : collides [column] column "" fields = false := by
    simp [collides]
  cases strategy <;> simp [chooseLead, leadsOf, pathLead, hfree]

/-- **Unfolding the struct.** Once the struct has given way to its fields, they are unfolded as they
would be on their own. -/
theorem ofFields_wrapped (separator : String) (strategy : Strategy) (fields : Fields) :
    ofFields separator strategy [""] "" "" [("", .struct fields)] = (do
      let inner ← ofFields separator strategy (fields.map Prod.fst) "" "" fields
      return { inner with steps := .unnest "" "" (fields.map Prod.fst) :: inner.steps }) := by
  have hreplace : replaceColumn "" (fieldColumns "" fields) [""] = some (fields.map Prod.fst) := by
    rw [replaceColumn, if_pos rfl, List.append_nil, fieldColumns_empty]
  rw [ofFields, String.empty_append, joinPath_anonymous, joinPath_singleton, ofTree,
    chooseLead_alone, ok_bind, hreplace]
  dsimp only
  cases ofFields separator strategy (fields.map Prod.fst) "" "" fields with
  | error error => rfl
  | ok inner => simp only [ok_bind, pure_bind, ofFields, List.append_nil]

end Unfolding

/-- **Planning the struct.** The struct adds its own step to the plan, or is no more planned than
its fields. -/
theorem Plan.ofSchema_wrapped (schema : Schema) (strategy : Strategy) :
    Plan.ofSchema schema.wrapped strategy = Plan.wrapped <$> Plan.ofSchema schema strategy := by
  change (Unfolding.ofFields schema.separator strategy [""] "" "" [("", .struct schema.fields)] >>=
    _) = _
  rw [Unfolding.ofFields_wrapped, Plan.ofSchema]
  cases Unfolding.ofFields schema.separator strategy (schema.fields.map Prod.fst) "" ""
      schema.fields with
  | error error => rfl
  | ok unfolding =>
    change (Unfolding.newNames schema.bindings unfolding.leaves >>= _) =
      Plan.wrapped <$> (Unfolding.newNames schema.bindings unfolding.leaves >>= _)
    cases Unfolding.newNames schema.bindings unfolding.leaves <;> rfl

/-! ### The run -/

/-- Without a column for the struct, the plan begins with the columns of its fields. -/
theorem Plan.sourceColumns_wrapped {present : List String} (h : "" ∉ present) (plan : Plan) :
    plan.wrapped.sourceColumns present = plan.sourceColumns present := by
  rw [sourceColumns, wrapped, fieldSources, fieldSources, List.append_nil, sources, if_neg h,
    if_pos rfl, sourceColumns]

/-- **Running the struct.** On a frame without a column for the struct its step is skipped. -/
theorem Plan.execute_wrapped {frame : Frame} (h : "" ∉ frame.columns) (plan : Plan) :
    plan.wrapped.execute Frame.engine frame = plan.execute Frame.engine frame := by
  have hpresent : plan.sourceColumns frame.columns ⊆ frame.columns := fun name hname => by
    rw [sourceColumns, fieldSources_eq, List.mem_eraseDups] at hname
    exact of_decide_eq_true (List.mem_filter.mp hname).2
  have hskip : ∀ selected : Frame, selected.columns = plan.sourceColumns frame.columns →
      runStep Frame.engine selected (.unnest "" "" (plan.fields.map Prod.fst)) = .ok selected :=
    fun selected hselected => if_neg fun hmem => h (hpresent (hselected ▸ hmem))
  have hstart : Frame.engine.perform (.select (plan.sourceColumns frame.columns)) frame = .ok _ :=
    Frame.select_eq_ok fun name hname => hpresent hname
  rw [execute_eq, execute_eq]
  change (Frame.engine.perform (.select (plan.wrapped.sourceColumns frame.columns)) frame >>= _) =
    (Frame.engine.perform (.select (plan.sourceColumns frame.columns)) frame >>= _)
  rw [sourceColumns_wrapped h, hstart, ok_bind, ok_bind]
  change (List.foldlM _ _ (_ :: plan.steps) >>= _) = _
  rw [List.foldlM_cons, hskip _ rfl, ok_bind]
  rfl

/-! ### Unpacking -/

/-- **Wrapping a schema.** A text that is a schema is one too as the content of an anonymous struct,
and the json paths, the columns and their datatypes stay as they are. By either of the two, records
that are objects without a member of the empty name unpack to the same rows, or fail alike. -/
theorem unpackRecords_wrapped {source : Text} {options : UnpackOptions} {schema : Schema}
    (h : compile source options.toCompileOptions = .ok schema) :
    (∃ wrapped, compile source.wrapped options.toCompileOptions = .ok wrapped ∧
      wrapped.bindings = schema.bindings ∧ wrapped.columns = schema.columns ∧
      wrapped.datatypes = schema.datatypes) ∧
    ∀ records : List Value,
      (∀ record ∈ records, ∃ members, record = .object members ∧ "" ∉ Assoc.keys members) →
      unpackRecords source.wrapped records options = unpackRecords source records options := by
  have hwrapped := compile_wrapped h
  refine ⟨⟨schema.wrapped, hwrapped, rfl, rfl, rfl⟩, fun records hrecords => ?_⟩
  have habsent : "" ∉ (Frame.ofRecords records).columns := by
    rw [Frame.mem_columns_ofRecords_iff]
    rintro ⟨record, hrecord, hname⟩
    obtain ⟨members, rfl, hmembers⟩ := hrecords record hrecord
    exact hmembers hname
  rw [unpackRecords, unpackRecords, unpack, unpack, hwrapped, h]
  change Frame.records <$> ((Plan.ofSchema schema.wrapped options.strategy).mapError _ >>= _) =
    Frame.records <$> ((Plan.ofSchema schema options.strategy).mapError _ >>= _)
  rw [Plan.ofSchema_wrapped]
  cases Plan.ofSchema schema options.strategy with
  | error error => rfl
  | ok plan =>
    change Frame.records <$> (plan.wrapped.execute Frame.engine _).mapError _ =
      Frame.records <$> (plan.execute Frame.engine _).mapError _
    rw [Plan.execute_wrapped habsent]

/-- A schema that has an anonymous struct of its own, in one more. -/
theorem unpackRecords_wrapped_twice :
    unpackRecords (Text.ofString "id: Utf8, Struct(a: List(Utf8))").wrapped
        [.object [("id", .string "x"), ("a", .array [.string "y"])]] =
      .ok [[("id", .string "x"), ("a", .string "y")]] := by
  obtain ⟨schema, hschema⟩ := Option.isSome_iff_exists.mp
    (by decide +kernel :
      (compile (Text.ofString "id: Utf8, Struct(a: List(Utf8))")).toOption.isSome = true)
  have hobjects : ∀ record ∈ [Value.object [("id", .string "x"), ("a", .array [.string "y"])]],
      ∃ members, record = .object members ∧ "" ∉ Assoc.keys members := by
    intro record hrecord
    exact ⟨_, List.mem_singleton.mp hrecord, by decide⟩
  have hcompile : compile (Text.ofString "id: Utf8, Struct(a: List(Utf8))")
      ({} : UnpackOptions).toCompileOptions = .ok schema := toOption_eq_some_iff.mp hschema
  rw [(unpackRecords_wrapped hcompile).2 _ hobjects]
  exact toOption_eq_some_iff.mp (by decide +kernel)

end NestedRecords
