import NestedRecords.Proofs.Schema.Drawing
import NestedRecords.Proofs.Schema.Duplicates
import NestedRecords.Proofs.Schema.Names
import NestedRecords.Proofs.Tree.Printing

/-!
# Printing and reading back

A printed tree lexes to the lexemes it was made of, these derive the tree in the grammar, and so the
only question left is whether two of its leaves meet. A printed text has no new names. Each leaf
fills its default column, and by these columns the text is a schema again or is refused for a
duplicate (`schema_of_printed` and `failure_of_printed`).

This tells what becomes of a schema that is printed, too. Its names are identifiers and distinct
among siblings, so it comes back as the same tree exactly when the default columns of its leaves
differ. They need not: new names keep leaves apart that would otherwise fill one column, and
printing drops the new names.
-/

namespace NestedRecords

open CodeUnit

/-- A text that begins with a token still does not begin with a line feed when its line endings are
unified. -/
theorem Text.head_unifyLineEndings_ne_lineFeed {t : Text}
    (h : ∀ u ∈ t.head?, u.isStart = true) : t.unifyLineEndings.head? ≠ some lineFeed := by
  cases t with
  | nil => exact nofun
  | cons u rest =>
    have hu : u.isStart = true := h u rfl
    have hreturn : u ≠ carriageReturn := by
      rintro rfl
      exact absurd hu (by decide)
    rw [Text.unifyLineEndings_cons fun hboth => hreturn hboth.1]
    intro hhead
    obtain rfl : u = lineFeed := by simpa using hhead
    exact absurd hu (by decide)

/-! ### Reading a printed tree -/

section Printed

variable {fields : Fields} {indent : String}

/-- The tokens of a printed text derive the tree that was printed. -/
theorem derives_of_printed (hspelled : Tree.FieldNamesSpelled fields)
    (hindent : (Text.ofString indent).IsFiller) :
    (Fragment.ofSource (Text.ofString (Tree.print fields indent))).tokens.2 = none ∧
      Derives (Fragment.ofSource (Text.ofString (Tree.print fields indent))).tokens.1
        (Declared.ofFields fields) := by
  obtain ⟨hlexemes, hend⟩ :=
    Fragment.lex_of_laid (Tree.laid_print hindent hspelled).unifyLineEndings
      (f := Fragment.ofSource (Text.ofString (Tree.print fields indent))) rfl
  exact ⟨Fragment.tokens_snd_eq_none_iff.mpr hend, Tree.derives_of_fieldLexemes fields hlexemes⟩

/-- **Printed schemas.** If the default columns of its leaves differ, a printed tree is read as
itself, with these columns. -/
theorem schema_of_printed (hspelled : Tree.FieldNamesSpelled fields)
    (hnames : (Tree.struct fields).NamesDistinct) (hindent : (Text.ofString indent).IsFiller)
    (hcolumns : (Tree.fieldDefaultColumns [] fields).Nodup) :
    compile (Text.ofString (Tree.print fields indent)) =
      .ok (Declared.schema "." (Declared.ofFields fields)) := by
  obtain ⟨hlexed, hderives⟩ := derives_of_printed hspelled hindent
  have hleaves : Declared.LeavesDistinct (Declared.entryLeaves "." [] (Declared.ofFields fields)) :=
    ⟨by rwa [Declared.map_column_entryLeaves],
      by rw [Declared.map_path_entryLeaves]; exact Tree.nodup_paths hspelled hcolumns⟩
  refine compile_eq_ok_iff.mpr ⟨hlexed, _, hderives, ⟨?_, hleaves⟩, rfl⟩
  rwa [Declared.fields_ofFields]

/-- **Printed duplicates.** If two leaves have one default column, a printed tree is refused for
it. -/
theorem failure_of_printed (hspelled : Tree.FieldNamesSpelled fields)
    (hnames : (Tree.struct fields).NamesDistinct) (hindent : (Text.ofString indent).IsFiller)
    (hcolumns : ¬(Tree.fieldDefaultColumns [] fields).Nodup) :
    ∃ e, compile (Text.ofString (Tree.print fields indent)) = .error (.invalid e) ∧
      e.kind = .duplicateColumn := by
  obtain ⟨hlexed, hderives⟩ := derives_of_printed hspelled hindent
  have hends : Ends _ _ (Fragment.schema _ ".") :=
    Fragment.schema_ends hlexed hderives (by rwa [Declared.fields_ofFields])
  -- the text does not begin with a line feed, so its errors can be drawn
  have hstart := Text.head_unifyLineEndings_ne_lineFeed
    (Tree.isStart_head_print indent hspelled)
  rw [compile]
  change Ends _ _ (Fragment.schema _ ({} : CompileOptions).separator) at hends
  generalize Fragment.schema _ ({} : CompileOptions).separator = read at hends ⊢
  cases hends with
  | ok h => exact absurd (by rw [← Declared.map_column_entryLeaves "."]; exact h.2.columns) hcolumns
  | @error r hr =>
    obtain ⟨e, hfailure, hkind⟩ := r.failure_eq_invalid hstart ({} : CompileOptions).sourceName
    exact ⟨e, congrArg Except.error hfailure, hkind.trans hr⟩

end Printed

/-- **Print, then compile.** A tree with identifiers for names, distinct among siblings, is printed
as a text that compiles to the same tree and binds each leaf to its default column, if these columns
are distinct; if they are not, the text is refused for a duplicate column. -/
theorem compile_print (fields : Fields) (indent : String)
    (hspelled : Tree.FieldNamesSpelled fields) (hnames : (Tree.struct fields).NamesDistinct)
    (hindent : (Text.ofString indent).IsFiller) :
    ((Tree.fieldDefaultColumns [] fields).Nodup →
      ∃ schema, compile (Text.ofString (Tree.print fields indent)) = .ok schema ∧
        schema.fields = fields ∧
        schema.bindings = ((Tree.fieldLeaves "." [] fields).map Prod.fst).zip
          (Tree.fieldDefaultColumns [] fields)) ∧
    (¬(Tree.fieldDefaultColumns [] fields).Nodup →
      ∃ e, compile (Text.ofString (Tree.print fields indent)) = .error (.invalid e) ∧
        e.kind = .duplicateColumn) := by
  refine ⟨fun hcolumns => ?_, failure_of_printed hspelled hnames hindent⟩
  refine ⟨_, schema_of_printed hspelled hnames hindent hcolumns,
    Declared.fields_ofFields fields, ?_⟩
  rw [← Declared.map_column_entryLeaves ".", ← Declared.map_path_entryLeaves, List.zip_map']
  rfl

/-- A tree with an anonymous struct in it comes back, and one with a name in two structs is
refused. -/
theorem compile_print_nested :
    (∃ schema, compile (Text.ofString "id: Utf8\nStruct(\n,\ttags: List(\n,\t,\tInt8\n,\t)\n)") =
        .ok schema ∧
      schema.fields =
        [("id", .scalar .utf8), ("", .struct [("tags", .list (.scalar .int8))])] ∧
      schema.bindings = [("id", "id"), ("tags", "tags")]) ∧
    ∃ e, compile (Text.ofString "a: Struct(\nx: Int8\n)\nb: Struct(\nx: Int8\n)") =
        .error (.invalid e) ∧ e.kind = .duplicateColumn := by
  constructor
  · have hspelled : Tree.FieldNamesSpelled
        [("id", .scalar .utf8), ("", .struct [("tags", .list (.scalar .int8))])] :=
      ⟨by decide, trivial, .inl rfl, ⟨by decide, trivial, trivial⟩, trivial⟩
    have hnames : (Tree.struct
        [("id", .scalar .utf8), ("", .struct [("tags", .list (.scalar .int8))])]).NamesDistinct :=
      ⟨by decide, trivial, ⟨by decide, trivial, trivial⟩, trivial⟩
    obtain ⟨schema, hcompile, hfields, hbindings⟩ :=
      (compile_print _ ",\t" hspelled hnames (by decide)).1 (by decide)
    have hprint : Tree.print
        [("id", .scalar .utf8), ("", .struct [("tags", .list (.scalar .int8))])] ",\t" =
        "id: Utf8\nStruct(\n,\ttags: List(\n,\t,\tInt8\n,\t)\n)" := by
      decide +kernel
    rw [hprint] at hcompile
    exact ⟨schema, hcompile, hfields, hbindings.trans (by decide)⟩
  · have hspelled : Tree.FieldNamesSpelled
        [("a", .struct [("x", .scalar .int8)]), ("b", .struct [("x", .scalar .int8)])] :=
      ⟨by decide, ⟨by decide, trivial, trivial⟩, by decide, ⟨by decide, trivial, trivial⟩, trivial⟩
    have hnames : (Tree.struct [("a", .struct [("x", .scalar .int8)]),
        ("b", .struct [("x", .scalar .int8)])]).NamesDistinct :=
      ⟨by decide, ⟨by decide, trivial, trivial⟩, ⟨by decide, trivial, trivial⟩, trivial⟩
    exact (compile_print _ "" hspelled hnames (by decide)).2 (by decide)

/-! ### Printing a schema -/

/-- **Printing a schema.** The tree of a schema is printed as a text that compiles to the same tree
if the default columns of its leaves are distinct, and that is refused for a duplicate column if
they are not. -/
theorem compile_print_of_compile {source : Text} {options : CompileOptions} {schema : Schema}
    (h : compile source options = .ok schema) :
    ((Tree.fieldDefaultColumns [] schema.fields).Nodup →
      ∃ again, compile (Text.ofString (Tree.print schema.fields)) = .ok again ∧
        again.fields = schema.fields) ∧
    (¬(Tree.fieldDefaultColumns [] schema.fields).Nodup →
      ∃ e, compile (Text.ofString (Tree.print schema.fields)) = .error (.invalid e) ∧
        e.kind = .duplicateColumn) := by
  obtain ⟨-, entries, derived, wellFormed, rfl⟩ := compile_eq_ok_iff.mp h
  have hspelled := derived.fieldNamesSpelled fun token hmem =>
    Fragment.exists_written_of_mem_lex _ token hmem
  have hindent : (Text.ofString "    ").IsFiller := by decide
  refine ⟨fun hcolumns => ?_, failure_of_printed hspelled wellFormed.names_distinct hindent⟩
  exact ⟨_, schema_of_printed hspelled wellFormed.names_distinct hindent hcolumns,
    Declared.fields_ofFields _⟩

/-- A renamed column comes back if no other leaf has its name. -/
theorem compile_print_of_compile_renamed :
    ∃ schema again, compile (Text.ofString "a: Struct(x=p: Int8), b: List(Utf8)") = .ok schema ∧
      compile (Text.ofString (Tree.print schema.fields)) = .ok again ∧
      again.fields = schema.fields := by
  have h : compile (Text.ofString "a: Struct(x=p: Int8), b: List(Utf8)") =
      .ok { fields := [("a", .struct [("x", .scalar .int8)]), ("b", .list (.scalar .utf8))]
            bindings := [("a.x", "p"), ("b", "b")]
            columns := ["p", "b"]
            datatypes := [.int8, .utf8]
            separator := "." } := toOption_eq_some_iff.mp (by decide +kernel)
  obtain ⟨again, hagain, hfields⟩ := (compile_print_of_compile h).1 (by decide)
  exact ⟨_, again, h, hagain, hfields⟩

/-- **New names are lost.** Two leaves of one name are kept apart by their new names, but the
printed tree is refused for a duplicate column. -/
theorem compile_print_of_compile_fails :
    ∃ schema e, compile (Text.ofString "a: Struct(x=p: Int8), b: Struct(x=q: Int8)") = .ok schema ∧
      compile (Text.ofString (Tree.print schema.fields)) = .error (.invalid e) ∧
      e.kind = .duplicateColumn := by
  have h : compile (Text.ofString "a: Struct(x=p: Int8), b: Struct(x=q: Int8)") =
      .ok { fields := [("a", .struct [("x", .scalar .int8)]), ("b", .struct [("x", .scalar .int8)])]
            bindings := [("a.x", "p"), ("b.x", "q")]
            columns := ["p", "q"]
            datatypes := [.int8, .int8]
            separator := "." } := toOption_eq_some_iff.mp (by decide +kernel)
  have hfailure : ∃ e, compile (Text.ofString (Tree.print
      [("a", .struct [("x", .scalar .int8)]), ("b", .struct [("x", .scalar .int8)])])) =
        .error (.invalid e) ∧ e.kind = .duplicateColumn := failure_of_printed
    ⟨by decide, ⟨by decide, trivial, trivial⟩, by decide, ⟨by decide, trivial, trivial⟩, trivial⟩
    ⟨by decide, ⟨by decide, trivial, trivial⟩, ⟨by decide, trivial, trivial⟩, trivial⟩
    (by decide) (by decide)
  obtain ⟨e, herror, hkind⟩ := hfailure
  exact ⟨_, e, h, herror, hkind⟩

end NestedRecords
