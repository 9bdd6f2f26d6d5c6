import Mathlib.Data.Multiset.Bind
import NestedRecords.Proofs.Tree.Reordering
import NestedRecords.Proofs.Unpack.Arrival

/-!
# The order of declaration

The fields of a struct are taken apart in the order in which they were declared, so a text with its
fields in another order gives other steps, other names on the way and other rows. What it does not
change is the rows themselves: each record gives the same ones, in another order
(`unpackRecords_reordered`).

Plans have no part in this, as both texts unpack to what their trees flatten to. So it is enough to
flatten without an order. A row is then the multiset of its cells, each under the json path of its
leaf, and a value has a multiset of rows (`Tree.bag`). A list chooses an item and a row of it; a
struct chooses a row from each of its fields and adds them up. Choices can be made in any order, and
so can sums (`Tree.fieldBag_perm`).
-/

namespace NestedRecords

open NestedRecords.Tree

namespace Tree

/-! ### Rows of any value -/

theorem rows_list_getD (element : Tree) (value : Value) :
    (list element).rows value = (value.items?.getD [.null]).flatMap element.rows := by
  cases hitems : value.items? with
  | some items => exact rows_list hitems element
  | none =>
    have hrows : (list element).rows value = [element.nulls] := by
      match value, hitems with
      | .bool _, _ | .number _, _ | .string _, _ | .object _, _ => rfl
      | .array [], h => cases h
      | .array (_ :: _), h => cases h
    rw [hrows, Option.getD_none, List.flatMap_singleton, rows_null]

theorem rows_struct_getD (fields : Fields) (value : Value) :
    (struct fields).rows value = fieldRows fields (value.members?.getD []) := by
  cases hmembers : value.members? with
  | some members => exact rows_struct hmembers fields
  | none =>
    have hrows : (struct fields).rows value = [fieldNulls fields] := by
      match value, hmembers with
      | .bool _, _ | .number _, _ | .string _, _ | .array _, _ => rfl
    rw [hrows, Option.getD_none, fieldRows_of_null fun _ _ => rfl]

mutual

theorem length_of_mem_rows (separator : String) (scope : List String) :
    ∀ (type : Tree) (value : Value), ∀ row ∈ type.rows value,
      row.length = (type.leaves separator scope).length
  | scalar _, value, row, h => by
    rw [rows, List.mem_singleton] at h
    subst h
    rfl
  | list element, value, row, h => by
    rw [rows_list_getD] at h
    obtain ⟨item, -, hrow⟩ := List.mem_flatMap.mp h
    exact length_of_mem_rows separator ("" :: scope) element item row hrow
  | struct fields, value, row, h => by
    rw [rows_struct_getD] at h
    exact length_of_mem_fieldRows separator scope fields _ row h

theorem length_of_mem_fieldRows (separator : String) (scope : List String) :
    ∀ (fields : List (String × Tree)) (members : Row), ∀ row ∈ fieldRows fields members,
      row.length = (fieldLeaves separator scope fields).length
  | [], members, row, h => by
    rw [fieldRows, List.mem_singleton] at h
    subst h
    rfl
  | (name, type) :: rest, members, row, h => by
    rw [fieldRows] at h
    obtain ⟨front, hfront, hrow⟩ := List.mem_flatMap.mp h
    obtain ⟨back, hback, rfl⟩ := List.mem_map.mp hrow
    rw [fieldLeaves, List.length_append, List.length_append,
      length_of_mem_rows separator (name :: scope) type _ front hfront,
      length_of_mem_fieldRows separator scope rest members back hback]

end

end Tree

/-! ### Rows without an order -/

/-- A row without the order of its cells. -/
def Row.cells (row : Row) : Multiset (String × Value) := row

namespace Tree

/-- The cells of a row, each under the json path of its leaf. -/
def labelled (leaves : List (String × Datatype)) (row : List Value) : Multiset (String × Value) :=
  Row.cells ((leaves.map Prod.fst).zip row)

theorem labelled_append {leaves : List (String × Datatype)} {row : List Value}
    (h : row.length = leaves.length) (others : List (String × Datatype)) (more : List Value) :
    labelled (leaves ++ others) (row ++ more) = labelled leaves row + labelled others more := by
  rw [labelled, List.map_append, List.zip_append (by rw [List.length_map, h]), labelled, labelled,
    Row.cells, Row.cells, Row.cells, Multiset.coe_add]

/-- **Rows without an order.** -/
def bag (separator : String) (scope : List String) (type : Tree) (value : Value) :
    Multiset (Multiset (String × Value)) :=
  (type.rows value : Multiset (List Value)).map (labelled (type.leaves separator scope))

/-- The rows of some fields without an order. -/
def fieldBag (separator : String) (scope : List String) (fields : Fields) (members : Row) :
    Multiset (Multiset (String × Value)) :=
  (fieldRows fields members : Multiset (List Value)).map
    (labelled (fieldLeaves separator scope fields))

variable (separator : String) (scope : List String)

theorem bag_list (element : Tree) (value : Value) :
    (list element).bag separator scope value =
      (value.items?.getD [.null] : Multiset Value).bind (element.bag separator ("" :: scope)) := by
  rw [bag, rows_list_getD, ← Multiset.coe_bind, Multiset.map_bind]
  rfl

theorem bag_struct (fields : Fields) (value : Value) :
    (struct fields).bag separator scope value =
      fieldBag separator scope fields (value.members?.getD []) := by
  rw [bag, rows_struct_getD]
  rfl

/-- The rows of the first field, each with all rows of the others. -/
theorem fieldBag_cons (name : String) (type : Tree) (rest : Fields) (members : Row) :
    fieldBag separator scope ((name, type) :: rest) members =
      (type.bag separator (name :: scope) (members.cell name)).bind fun row =>
        (fieldBag separator scope rest members).map (row + ·) := by
  rw [fieldBag, fieldRows, ← Multiset.coe_bind, Multiset.map_bind, bag, Multiset.bind_map]
  refine Multiset.bind_congr fun row hrow => ?_
  rw [← Multiset.map_coe, fieldBag, Multiset.map_map, Multiset.map_map]
  exact Multiset.map_congr rfl fun more _ =>
    labelled_append (length_of_mem_rows separator _ type _ row hrow) _ more

/-- The order of the fields does not show. -/
theorem fieldBag_perm {fields others : Fields} (h : fields.Perm others) (members : Row) :
    fieldBag separator scope fields members = fieldBag separator scope others members := by
  induction h with
  | nil => rfl
  | cons field _ ih => rw [fieldBag_cons, fieldBag_cons, ih]
  | swap first second rest =>
    obtain ⟨name, type⟩ := first
    obtain ⟨name', type'⟩ := second
    simp only [fieldBag_cons, Multiset.map_bind, Multiset.map_map, Function.comp_def]
    rw [Multiset.bind_bind]
    simp only [add_left_comm]
  | trans _ _ ih ih' => rw [ih, ih']

/-- **Reordered types have the same rows.** -/
theorem Reordered.bag_eq {type other : Tree} (h : type.Reordered other) :
    ∀ (scope : List String) (value : Value),
      type.bag separator scope value = other.bag separator scope value := by
  induction h with
  | refl => exact fun _ _ => rfl
  | trans _ _ ih ih' => exact fun scope value => (ih scope value).trans (ih' scope value)
  | list _ ih =>
    intro scope value
    rw [bag_list, bag_list]
    exact Multiset.bind_congr fun item _ => ih ("" :: scope) item
  | field _ name rest ih =>
    intro scope value
    rw [bag_struct, bag_struct, fieldBag_cons, fieldBag_cons, ih]
  | perm hperm =>
    intro scope value
    rw [bag_struct, bag_struct, fieldBag_perm separator scope hperm]

/-- **Values fit reordered types alike.** -/
theorem Reordered.fits_iff {type other : Tree} (h : type.Reordered other) :
    ∀ value : Value, type.Fits value ↔ other.Fits value := by
  induction h with
  | refl => exact fun _ => Iff.rfl
  | trans _ _ ih ih' => exact fun value => (ih value).trans (ih' value)
  | list _ ih =>
    intro value
    cases hitems : value.items? with
    | none => exact iff_of_false (not_fits_list hitems) (not_fits_list hitems)
    | some items =>
      rw [fits_list_iff hitems, fits_list_iff hitems]
      exact forall₂_congr fun item _ => ih item
  | field _ name rest ih =>
    intro value
    cases hmembers : value.members? with
    | none => exact iff_of_false (not_fits_struct hmembers) (not_fits_struct hmembers)
    | some members =>
      rw [fits_struct_iff hmembers, fits_struct_iff hmembers, fieldsFit_cons, fieldsFit_cons, ih]
  | perm hperm =>
    intro value
    cases hmembers : value.members? with
    | none => exact iff_of_false (not_fits_struct hmembers) (not_fits_struct hmembers)
    | some members =>
      rw [fits_struct_iff hmembers, fits_struct_iff hmembers]
      exact forall_congr' fun field => imp_congr_left hperm.mem_iff

end Tree

/-! ### Rows as maps -/

/-- Rows that are the same without any order are the same as maps. -/
theorem Row.perm_map_asMap {rows others : List Row}
    (hkeys : ∀ row ∈ rows, (Assoc.keys row).Nodup) (hkeys' : ∀ row ∈ others, (Assoc.keys row).Nodup)
    (h : (rows : Multiset Row).map cells = (others : Multiset Row).map cells) :
    (rows.map asMap).Perm (others.map asMap) := by
  -- any listing of a row gives the map of the row
  have hread : ∀ row : Row, (Assoc.keys row).Nodup → row.asMap = asMap row.cells.toList := by
    intro row hrow
    have hlisting : row.Perm row.cells.toList :=
      (Multiset.coe_eq_coe.mp (Multiset.coe_toList row.cells)).symm
    exact funext (Assoc.lookup_eq_of_perm hrow hlisting)
  have hmaps : ∀ list : List Row, (∀ row ∈ list, (Assoc.keys row).Nodup) →
      (list.map asMap : Multiset (String → Option Value)) =
        ((list : Multiset Row).map cells).map fun row => asMap row.toList := by
    intro list hlist
    rw [Multiset.map_map, Multiset.map_coe]
    exact congrArg _ (List.map_congr_left fun row hrow => hread row (hlist row hrow))
  exact Multiset.coe_eq_coe.mp (by rw [hmaps rows hkeys, hmaps others hkeys', h])

/-! ### Unpacking -/

/-- The rows that a record flattens to under the columns of a schema. -/
def Schema.rowsOf (schema : Schema) (record : Value) : List Row :=
  (fieldRows schema.fields record.entries).map fun values =>
    MemberOrder.arrangeBy Prod.fst (schema.columns.zip values)

/-- Without their order, the rows of a record are those of the tree, with the columns for the
paths. -/
theorem Schema.map_cells_rowsOf {schema : Schema} (h : schema.Coherent) (record : Value) :
    (schema.rowsOf record : Multiset Row).map Row.cells =
      (fieldBag schema.separator [] schema.fields record.entries).map
        (Multiset.map (Prod.map (fun path => (schema.bindings.lookup path).getD "") id)) := by
  rw [rowsOf, fieldBag, ← Multiset.map_coe, Multiset.map_map, Multiset.map_map]
  refine Multiset.map_congr rfl fun values _ => ?_
  rw [Function.comp_apply, Function.comp_apply, labelled, Row.cells, Row.cells, Multiset.map_coe,
    ← List.zip_map_left, List.map_map, ← h.leafColumns_eq, leafColumns]
  exact Multiset.coe_eq_coe.mpr (MemberOrder.arrangeBy_perm _ _)

/-- Every row has the columns of the schema. -/
theorem Schema.nodup_keys_of_mem_rowsOf {schema : Schema} (h : schema.Coherent) {record : Value} :
    ∀ row ∈ schema.rowsOf record, (Assoc.keys row).Nodup := by
  intro row hrow
  obtain ⟨values, hvalues, rfl⟩ := List.mem_map.mp hrow
  have hperm := (MemberOrder.arrangeBy_perm Prod.fst (schema.columns.zip values)).map Prod.fst
  have hlength : schema.columns.length = values.length := by
    rw [length_of_mem_fieldRows schema.separator [] schema.fields _ values hvalues,
      ← h.leafColumns_eq, leafColumns, List.length_map]
  rw [List.map_fst_zip hlength.le] at hperm
  exact hperm.nodup_iff.mpr h.columns_nodup

/-- **Reordered schemas give the same rows.** -/
theorem Schema.perm_map_asMap_rowsOf {schema schema' : Schema} (h : schema.Coherent)
    (h' : schema'.Coherent) (hseparator : schema.separator = schema'.separator)
    (hbindings : ∀ path, schema.bindings.lookup path = schema'.bindings.lookup path)
    (hreordered : (struct schema.fields).Reordered (struct schema'.fields)) (record : Value) :
    ((schema.rowsOf record).map Row.asMap).Perm ((schema'.rowsOf record).map Row.asMap) := by
  have hbag := hreordered.bag_eq schema.separator [] (.object record.entries)
  rw [bag_struct, bag_struct] at hbag
  refine Row.perm_map_asMap (nodup_keys_of_mem_rowsOf h) (nodup_keys_of_mem_rowsOf h') ?_
  rw [map_cells_rowsOf h, map_cells_rowsOf h', ← hseparator]
  simp only [hbindings]
  exact congrArg _ hbag

/-- Without anonymous structs at the root, all records are flattened by the fields of the schema. -/
theorem unpackRecords_ends_of_not_wrapped (source : Text) (options : UnpackOptions)
    {schema : Schema} {plan : Plan} (hschema : compile source options.toCompileOptions = .ok schema)
    (hplan : Plan.ofSchema schema options.strategy = .ok plan) (hroot : ¬Wrapped schema.fields)
    (records : List Value) :
    Ends (fun error => (∃ misfit : FrameError, misfit.IsMisfit ∧ error = .frame misfit) ∧
        ¬∀ record ∈ records, FieldsFit schema.fields record.entries)
      (fun rows => (∀ record ∈ records, FieldsFit schema.fields record.entries) ∧
        rows = records.flatMap schema.rowsOf)
      (unpackRecords source records options) := by
  have hfields : plan.fields = schema.fields :=
    ((Plan.ofSchema_ends (coherent_of_compile hschema) options.strategy).of_eq_ok hplan).fields
  have hclear : plan.ClearFor records := fun hwrapped => absurd (hfields ▸ hwrapped) hroot
  refine (unpackRecords_ends source options hschema hplan hclear (arrival_eq_self hroot _)).mono
    (fun _ herror => herror) fun rows hrows => ⟨hrows.1, ?_⟩
  rw [hrows.2, List.map_flatMap]
  rfl

/-- **The order of declaration.** Two texts declare the same trees up to the order of fields, with
no anonymous struct at the root, and the same column for every json path. Then unpacking some
records fails on values of another shape for both, or each record gives the same rows, as maps from
columns to values, in one order or another. -/
theorem unpackRecords_reordered (source source' : Text) (options options' : UnpackOptions)
    {schema schema' : Schema} {plan plan' : Plan}
    (hschema : compile source options.toCompileOptions = .ok schema)
    (hschema' : compile source' options'.toCompileOptions = .ok schema')
    (hseparator : options.separator = options'.separator)
    (hroot : ¬Wrapped schema.fields) (hroot' : ¬Wrapped schema'.fields)
    (hbindings : ∀ path, schema.bindings.lookup path = schema'.bindings.lookup path)
    (hreordered : (struct schema.fields).Reordered (struct schema'.fields))
    (hplan : Plan.ofSchema schema options.strategy = .ok plan)
    (hplan' : Plan.ofSchema schema' options'.strategy = .ok plan') (records : List Value) :
    (∃ block block' : Value → List Row,
      unpackRecords source records options = .ok (records.flatMap block) ∧
      unpackRecords source' records options' = .ok (records.flatMap block') ∧
      ∀ record ∈ records, unpackRecords source [record] options = .ok (block record) ∧
        unpackRecords source' [record] options' = .ok (block' record) ∧
        ((block record).map Row.asMap).Perm ((block' record).map Row.asMap)) ∨
    ∃ misfit misfit' : FrameError, misfit.IsMisfit ∧ misfit'.IsMisfit ∧
      unpackRecords source records options = .error (.frame misfit) ∧
      unpackRecords source' records options' = .error (.frame misfit') := by
  have hends := unpackRecords_ends_of_not_wrapped source options hschema hplan hroot
  have hends' := unpackRecords_ends_of_not_wrapped source' options' hschema' hplan' hroot'
  have hfits : ∀ record : Value,
      FieldsFit schema.fields record.entries ↔ FieldsFit schema'.fields record.entries :=
    fun record => by
      have hmembers : (Value.object record.entries).members? = some record.entries := rfl
      rw [← fits_struct_iff hmembers, ← fits_struct_iff hmembers, hreordered.fits_iff]
  by_cases hall : ∀ record ∈ records, FieldsFit schema.fields record.entries
  · have hall' : ∀ record ∈ records, FieldsFit schema'.fields record.entries :=
      fun record hmem => (hfits record).mp (hall record hmem)
    -- records that all fit are unpacked, together and one by one
    have hrows : ∀ batch ⊆ records,
        unpackRecords source batch options = .ok (batch.flatMap schema.rowsOf) ∧
          unpackRecords source' batch options' = .ok (batch.flatMap schema'.rowsOf) := by
      intro batch hbatch
      obtain ⟨_, hrows, -, rfl⟩ := (hends batch).exists_ok
        fun _ herror => herror.2 fun record hmem => hall record (hbatch hmem)
      obtain ⟨_, hrows', -, rfl⟩ := (hends' batch).exists_ok
        fun _ herror => herror.2 fun record hmem => hall' record (hbatch hmem)
      exact ⟨hrows, hrows'⟩
    obtain ⟨htogether, htogether'⟩ := hrows records fun _ hmem => hmem
    refine .inl ⟨schema.rowsOf, schema'.rowsOf, htogether, htogether', fun record hrecord => ?_⟩
    obtain ⟨halone, halone'⟩ := hrows [record] (by simpa using hrecord)
    rw [List.flatMap_singleton] at halone halone'
    exact ⟨halone, halone', Schema.perm_map_asMap_rowsOf (coherent_of_compile hschema)
      (coherent_of_compile hschema') (by rw [separator_of_compile hschema, hseparator,
        separator_of_compile hschema']) hbindings hreordered record⟩
  · have hall' : ¬∀ record ∈ records, FieldsFit schema'.fields record.entries :=
      fun hall' => hall fun record hmem => (hfits record).mpr (hall' record hmem)
    obtain ⟨_, herror, ⟨misfit, hmisfit, rfl⟩, -⟩ :=
      (hends records).exists_error fun _ hrows => hall hrows.1
    obtain ⟨_, herror', ⟨misfit', hmisfit', rfl⟩, -⟩ :=
      (hends' records).exists_error fun _ hrows => hall' hrows.1
    exact .inr ⟨misfit, misfit', hmisfit, hmisfit', herror, herror'⟩

/-- Two lists, one of them in a struct, declared in either order: the items of the one that is
declared first vary slowest. -/
theorem unpackRecords_reordered_lists :
    ∃ rows rows' : List Row,
      unpackRecords (Text.ofString "a: List(Utf8), s: Struct(p=z: Utf8, q: List(Utf8))")
        [.object [("a", .array [.string "x", .string "y"]),
          ("s", .object [("q", .array [.string "u", .string "v"])])]]
        { strategy := .deferred } = .ok rows ∧
      unpackRecords (Text.ofString "s: Struct(q: List(Utf8), p=z: Utf8), a: List(Utf8)")
        [.object [("a", .array [.string "x", .string "y"]),
          ("s", .object [("q", .array [.string "u", .string "v"])])]] = .ok rows' ∧
      rows.map (·.cell "q") = [.string "u", .string "v", .string "u", .string "v"] ∧
      rows'.map (·.cell "q") = [.string "u", .string "u", .string "v", .string "v"] ∧
      (rows.map Row.asMap).Perm (rows'.map Row.asMap) := by
  have hplanned : ((compile (Text.ofString
      "a: List(Utf8), s: Struct(p=z: Utf8, q: List(Utf8))")).toOption.bind fun schema =>
        (Plan.ofSchema schema .deferred).toOption.map fun _ => (schema.fields, schema.bindings)) =
      some ([("a", .list (.scalar .utf8)),
        ("s", .struct [("p", .scalar .utf8), ("q", .list (.scalar .utf8))])],
        [("a", "a"), ("s.p", "z"), ("s.q", "q")]) := by
    decide +kernel
  have hplanned' : ((compile (Text.ofString
      "s: Struct(q: List(Utf8), p=z: Utf8), a: List(Utf8)")).toOption.bind fun schema =>
        (Plan.ofSchema schema .eager).toOption.map fun _ => (schema.fields, schema.bindings)) =
      some ([("s", .struct [("q", .list (.scalar .utf8)), ("p", .scalar .utf8)]),
        ("a", .list (.scalar .utf8))],
        [("s.q", "q"), ("s.p", "z"), ("a", "a")]) := by
    decide +kernel
  obtain ⟨schema, hschema, hplanned⟩ := Option.bind_eq_some_iff.mp hplanned
  obtain ⟨plan, hplan, hparts⟩ := Option.map_eq_some_iff.mp hplanned
  obtain ⟨hfields, hbindings⟩ := Prod.mk.inj hparts
  obtain ⟨schema', hschema', hplanned'⟩ := Option.bind_eq_some_iff.mp hplanned'
  obtain ⟨plan', hplan', hparts'⟩ := Option.map_eq_some_iff.mp hplanned'
  obtain ⟨hfields', hbindings'⟩ := Prod.mk.inj hparts'
  have hreordered : (struct schema.fields).Reordered (struct schema'.fields) := by
    rw [hfields, hfields']
    exact (Reordered.perm (.swap _ _ _)).trans
      (Reordered.field (.perm (.swap _ _ _)) "s" [("a", .list (.scalar .utf8))])
  have hsame : ∀ path, schema.bindings.lookup path = schema'.bindings.lookup path := by
    rw [hbindings, hbindings']
    exact Assoc.lookup_eq_of_perm (by decide) (by decide)
  have hroot : ¬Wrapped schema.fields := by
    rw [hfields]
    rintro ⟨inner, hmem⟩
    simp at hmem
  have hroot' : ¬Wrapped schema'.fields := by
    rw [hfields']
    rintro ⟨inner, hmem⟩
    simp at hmem
  have hcells : (unpackRecords (Text.ofString "a: List(Utf8), s: Struct(p=z: Utf8, q: List(Utf8))")
      [.object [("a", .array [.string "x", .string "y"]),
        ("s", .object [("q", .array [.string "u", .string "v"])])]]
      { strategy := .deferred }).toOption.map (List.map (·.cell "q")) =
        some [.string "u", .string "v", .string "u", .string "v"] := by
    decide +kernel
  have hcells' : (unpackRecords (Text.ofString "s: Struct(q: List(Utf8), p=z: Utf8), a: List(Utf8)")
      [.object [("a", .array [.string "x", .string "y"]),
        ("s", .object [("q", .array [.string "u", .string "v"])])]]).toOption.map
        (List.map (·.cell "q")) = some [.string "u", .string "u", .string "v", .string "v"] := by
    decide +kernel
  obtain ⟨rows, hrows, hcells⟩ := Option.map_eq_some_iff.mp hcells
  obtain ⟨rows', hrows', hcells'⟩ := Option.map_eq_some_iff.mp hcells'
  rw [toOption_eq_some_iff] at hschema hplan hschema' hplan' hrows hrows'
  refine ⟨rows, rows', hrows, hrows', hcells, hcells', ?_⟩
  obtain ⟨block, block', -, -, halone⟩ | ⟨misfit, _, -, -, hfail, -⟩ :=
    unpackRecords_reordered _ _ { strategy := .deferred } {} hschema hschema' rfl hroot hroot'
      hsame hreordered hplan hplan' _
  · obtain ⟨hblock, hblock', hperm⟩ := halone _ (List.mem_singleton_self _)
    rwa [Except.ok.inj (hrows.symm.trans hblock), Except.ok.inj (hrows'.symm.trans hblock')]
  · rw [hrows] at hfail
    contradiction

end NestedRecords
