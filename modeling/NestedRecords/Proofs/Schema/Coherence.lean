import NestedRecords.Proofs.Assoc
import NestedRecords.Proofs.Schema.Acceptance

/-!
# What the parts of a schema have to do with each other

A schema has a tree, bindings of json paths, output columns and datatypes. They are put together
at different times: a container joins the tree when its closing bracket is read, after everything
in it, while the binding, the column and the datatype of a leaf are noted when the leaf is read.
`Schema.Coherent` says that all of them list the same leaves in the same order.

By `compile_eq_ok_iff` a schema that was read from a text is made of well-formed entries, and the
leaves of entries are the leaves of their tree, so nothing about the reading is left to prove.
-/

namespace NestedRecords

open Declared

/-- **Coherence.** The parts of a schema agree leaf by leaf with the tree, and nothing in it is
called the same twice. -/
structure Schema.Coherent (schema : Schema) : Prop where
  /-- The paths that are bound are those of the leaves. -/
  paths : schema.bindings.map Prod.fst =
    (Tree.fieldLeaves schema.separator [] schema.fields).map Prod.fst
  /-- The columns are those that the paths are bound to. -/
  columns : schema.columns = schema.bindings.map Prod.snd
  /-- The datatypes are those of the leaves. -/
  datatypes : schema.datatypes =
    (Tree.fieldLeaves schema.separator [] schema.fields).map Prod.snd
  columns_nodup : schema.columns.Nodup
  paths_nodup : (schema.bindings.map Prod.fst).Nodup
  names_distinct : (Tree.struct schema.fields).NamesDistinct

/-- The columns that the leaves of the tree are bound to, in the order of the leaves. -/
def Schema.leafColumns (schema : Schema) : List String :=
  (Tree.fieldLeaves schema.separator [] schema.fields).map fun leaf =>
    (schema.bindings.lookup leaf.1).getD ""

/-- The path of every leaf is bound, and to the column of its place. -/
theorem Schema.Coherent.lookup_leaves {schema : Schema} (h : schema.Coherent) :
    (Tree.fieldLeaves schema.separator [] schema.fields).map
      (fun leaf => schema.bindings.lookup leaf.1) = schema.columns.map some := by
  have hlookup : (Tree.fieldLeaves schema.separator [] schema.fields).map
      (fun leaf => schema.bindings.lookup leaf.1) =
      (schema.bindings.map Prod.fst).map (schema.bindings.lookup ·) := by
    rw [h.paths, List.map_map]
    rfl
  rw [hlookup, Assoc.map_lookup_keys h.paths_nodup, h.columns, List.map_map]
  rfl

theorem Schema.Coherent.leafColumns_eq {schema : Schema} (h : schema.Coherent) :
    schema.leafColumns = schema.columns := by
  have hget : schema.leafColumns = ((Tree.fieldLeaves schema.separator [] schema.fields).map
      (fun leaf => schema.bindings.lookup leaf.1)).map (·.getD "") := by
    rw [List.map_map]
    rfl
  rw [hget, h.lookup_leaves, List.map_map]
  exact List.map_id schema.columns

/-- Well-formed entries make up a coherent schema. -/
theorem Declared.WellFormed.coherent {separator : String} {entries : List Entry}
    (h : WellFormed separator entries) : (Declared.schema separator entries).Coherent where
  paths := by
    rw [schema, ← map_entryLeaves, List.map_map, List.map_map]
    rfl
  columns := by
    rw [schema, List.map_map]
    rfl
  datatypes := by
    rw [schema, ← map_entryLeaves, List.map_map]
    rfl
  columns_nodup := h.leaves_distinct.columns
  paths_nodup := by
    rw [schema, List.map_map]
    exact h.leaves_distinct.paths
  names_distinct := h.names_distinct

variable {source : Text} {options : CompileOptions} {schema : Schema}

theorem separator_of_compile (h : compile source options = .ok schema) :
    schema.separator = options.separator := by
  obtain ⟨-, entries, -, -, rfl⟩ := compile_eq_ok_iff.mp h
  rfl

theorem coherent_of_compile (h : compile source options = .ok schema) : schema.Coherent := by
  obtain ⟨-, entries, -, wellFormed, rfl⟩ := compile_eq_ok_iff.mp h
  exact wellFormed.coherent

/-- **Compiled schemas are coherent.** In a schema that was read from a text the bindings, in
order, have as keys the paths of the leaves of the tree from the first to the last, joined by the
separator that was asked for; the columns are the values of the bindings and the datatypes those
of the leaves; and no two columns, and no two siblings anywhere in the tree, share a name. -/
theorem compile_coherent (h : compile source options = .ok schema) :
    schema.bindings.map Prod.fst =
        (Tree.fieldLeaves options.separator [] schema.fields).map Prod.fst ∧
      schema.columns = schema.bindings.map Prod.snd ∧
      schema.datatypes = (Tree.fieldLeaves options.separator [] schema.fields).map Prod.snd ∧
      schema.columns.Nodup ∧ (Tree.struct schema.fields).NamesDistinct := by
  have hcoherent : schema.Coherent := coherent_of_compile h
  rw [← separator_of_compile h]
  exact ⟨hcoherent.paths, hcoherent.columns, hcoherent.datatypes, hcoherent.columns_nodup,
    hcoherent.names_distinct⟩

/-- A schema with a renamed column and anonymous structs: its leaves, read off the tree, are the
three paths that its bindings have. -/
theorem compile_coherent_nested :
    compile (Text.ofString "id: Utf8, Struct(a=b: Int8, c: List(Struct(d: Float32)))") =
      .ok { fields := [("id", .scalar .utf8), ("", .struct
              [("a", .scalar .int8), ("c", .list (.struct [("d", .scalar .float32)]))])]
            bindings := [("id", "id"), ("a", "b"), ("c.d", "d")]
            columns := ["id", "b", "d"]
            datatypes := [.utf8, .int8, .float32]
            separator := "." } ∧
      ["id", "a", "c.d"] = (Tree.fieldLeaves "." [] [("id", .scalar .utf8), ("", .struct
        [("a", .scalar .int8), ("c", .list (.struct [("d", .scalar .float32)]))])]).map
          Prod.fst := by
  have h : compile (Text.ofString "id: Utf8, Struct(a=b: Int8, c: List(Struct(d: Float32)))") =
      .ok { fields := [("id", .scalar .utf8), ("", .struct
              [("a", .scalar .int8), ("c", .list (.struct [("d", .scalar .float32)]))])]
            bindings := [("id", "id"), ("a", "b"), ("c.d", "d")]
            columns := ["id", "b", "d"]
            datatypes := [.utf8, .int8, .float32]
            separator := "." } := toOption_eq_some_iff.mp (by decide +kernel)
  exact ⟨h, (compile_coherent h).1⟩

end NestedRecords
