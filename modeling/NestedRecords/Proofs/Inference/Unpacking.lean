import NestedRecords.Proofs.Inference.Evidence
import NestedRecords.Proofs.Schema.RoundTrip
import NestedRecords.Proofs.Unpack.Arrival

/-!
# Records and their own schema

Records can be unpacked by the type that is inferred from them. It is printed, read back as the same
tree, and planned; and as every value suits its type, the only misfit there can be is a list at the
place of a struct. Such a list has no content, and it was seen before the first object was
(`Tree.Suits.fits_iff`).

An anonymous field is inferred only from a record that has a member of the empty name or is no
object. There is a column for it then, and it arrives as a whole.
-/

namespace NestedRecords

open NestedRecords.Tree

namespace Tree

/-! ### Lists at the places of structs -/

mutual

/-- Nothing in the value is a list where the type has a struct. -/
def Unlisted : Tree → Value → Prop
  | scalar _, _ => True
  | list element, .array items => ∀ item ∈ items, Unlisted element item
  | list _, _ => True
  | struct _, .array _ => False
  | struct fields, .object members => FieldsUnlisted fields members
  | struct _, _ => True

/-- No member of some fields holds a list where its type has a struct. -/
def FieldsUnlisted : List (String × Tree) → Row → Prop
  | [], _ => True
  | (name, type) :: rest, members => Unlisted type (members.cell name) ∧ FieldsUnlisted rest members

end

theorem unlisted_null (type : Tree) : type.Unlisted .null := by
  cases type <;> simp [Unlisted]

/-- A member suits the field of its name, and a missing one has no content. -/
theorem MembersSuit.cell {fields : Fields} {members : Row} (h : MembersSuit fields members)
    {name : String} {type : Tree} (hfield : fields.lookup name = some type) :
    type.Suits (members.cell name) := by
  rw [Row.cell]
  cases hmember : members.lookup name with
  | none => exact .hollow type .null
  | some value =>
    have hsuits := h (name, value) (Assoc.mem_of_lookup_eq_some hmember)
    rwa [hfield] at hsuits

mutual

/-- **Suiting and fitting.** A value that suits a type fits it, unless it has a list at the place of
a struct. -/
theorem Suits.fits_iff : ∀ {type : Tree} {value : Value}, type.NamesDistinct →
    type.Suits value → (type.Fits value ↔ type.Unlisted value)
  | .scalar datatype, value, _, _ => by
    rw [Unlisted]
    exact iff_true_intro (.scalar datatype value)
  | type, .null, _, _ => iff_of_true (.null type) (unlisted_null type)
  | .list element, .array items, hnames, h => by
    have hitems : (list element).Fits (.array items) ↔ ∀ item ∈ items, element.Fits item := by
      refine ⟨fun hfits => ?_, .array⟩
      cases hfits
      assumption
    rw [hitems, Unlisted]
    exact forall₂_congr fun item hitem => Suits.fits_iff hnames (suits_array_iff.mp h item hitem)
  | .struct fields, .array items, _, _ => by
    rw [Unlisted]
    exact iff_false_intro (not_fits_struct rfl)
  | .struct fields, .object members, hnames, h => by
    rw [fits_struct_iff rfl, Unlisted]
    have hfields := suits_object_iff.mp h
    refine fieldsFit_iff fields hnames.2 fun field hfield => hfields.cell ?_
    exact Assoc.lookup_eq_some_of_mem hnames.1 hfield
  | .list _, .bool _, _, h | .list _, .number _, _, h | .list _, .string _, _, h
  | .list _, .object _, _, h | .struct _, .bool _, _, h | .struct _, .number _, _, h
  | .struct _, .string _, _, h => by
    rcases h with ⟨_, ⟨⟩⟩

/-- Members that suit their fields fit them, unless there is a list at the place of a struct. -/
theorem fieldsFit_iff {members : Row} : ∀ (fields : List (String × Tree)),
    FieldNamesDistinct fields → (∀ field ∈ fields, field.2.Suits (members.cell field.1)) →
      (FieldsFit fields members ↔ FieldsUnlisted fields members)
  | [], _, _ => iff_of_true nofun trivial
  | (name, type) :: rest, ⟨htype, hrest⟩, h => by
    obtain ⟨hfirst, hothers⟩ := List.forall_mem_cons.mp h
    rw [fieldsFit_cons, FieldsUnlisted, Suits.fits_iff htype hfirst,
      fieldsFit_iff rest hrest hothers]

end

end Tree

/-! ### Unpacking -/

/-- The printed fields are read back as themselves. -/
theorem fields_of_printed {fields : Fields} {indent : String} {options : CompileOptions}
    {schema : Schema} (hspelled : FieldNamesSpelled fields) (hnames : (struct fields).NamesDistinct)
    (hindent : (Text.ofString indent).IsFiller)
    (h : compile (Text.ofString (Tree.print fields indent)) options = .ok schema) :
    schema.fields = fields := by
  obtain ⟨hlexed, hderives⟩ := derives_of_printed hspelled hindent
  rw [← Declared.fields_ofFields fields] at hnames
  obtain ⟨rfl, -⟩ :=
    (Fragment.schema_ends hlexed hderives hnames).of_eq_ok (mapError_eq_ok_iff.mp h)
  exact Declared.fields_ofFields fields

/-- **Records unpack by their own schema.** Where the fields inferred from some records have names
that can be written down, and the printed text compiles and has a plan, unpacking the records by it
gives rows exactly when no record has a list where another one has a struct. -/
theorem unpackRecords_inferred {records : List Value} {fields : Fields}
    (hinfer : inferFields records = .ok fields) (hspelled : FieldNamesSpelled fields)
    {options : UnpackOptions} {schema : Schema} {plan : Plan}
    (hschema : compile (Text.ofString (Tree.print fields)) options.toCompileOptions = .ok schema)
    (hplan : Plan.ofSchema schema options.strategy = .ok plan) :
    (∃ rows, unpackRecords (Text.ofString (Tree.print fields)) records options = .ok rows) ↔
      ∀ record ∈ records, FieldsUnlisted fields record.entries := by
  have hnames := namesDistinct_of_inferFields hinfer
  have hfields : schema.fields = fields :=
    fields_of_printed hspelled hnames (by decide) hschema
  have hexecutable : plan.Executable schema :=
    (Plan.ofSchema_ends (coherent_of_compile hschema) options.strategy).of_eq_ok hplan
  -- an anonymous field has a column in the records that it was inferred from
  have hcolumn : Wrapped schema.fields → "" ∈ (Frame.ofRecords records).columns := by
    rintro ⟨inner, hinner⟩
    rw [hfields] at hinner
    have hname : "" ∈ Assoc.keys fields := List.mem_map_of_mem hinner
    exact Frame.mem_columns_ofRecords_iff.mpr (keys_inferFields hinfer hname)
  have hclear : plan.ClearFor records := fun hwrapped habsent =>
    absurd (hcolumn (hexecutable.fields ▸ hwrapped)) habsent
  have harrival : arrival (Frame.ofRecords records).columns schema.fields = fields := by
    rw [← hfields]
    by_cases hwrapped : Wrapped schema.fields
    · exact arrival_of_mem (hcolumn hwrapped) _
    · exact arrival_eq_self hwrapped _
  have hfits : ∀ record ∈ records,
      (FieldsFit fields record.entries ↔ FieldsUnlisted fields record.entries) :=
    fun record hrecord => fieldsFit_iff fields hnames.2 fun field hfield =>
      (suits_of_inferFields hinfer record hrecord).cell
        (Assoc.lookup_eq_some_of_mem hnames.1 hfield)
  have hends := unpackRecords_ends _ options hschema hplan hclear harrival
  rw [← forall₂_congr hfits]
  constructor
  · rintro ⟨rows, hrows⟩
    exact (hends.of_eq_ok hrows).1
  · intro hall
    obtain ⟨rows, hrows, -⟩ := hends.exists_ok fun _ herror => herror.2 hall
    exact ⟨rows, hrows⟩

/-- Lists of objects, one of them empty and one with a null among its items. -/
theorem unpackRecords_inferred_lists :
    ∃ rows, unpackRecords (Text.ofString (Tree.print
        [("id", .scalar .utf8), ("tags", .list (.struct [("a", .scalar .utf8)]))]))
      [.object [("id", .string "x"), ("tags", .array [])],
        .object [("tags", .array [.object [("a", .string "y")], .null])]] = .ok rows := by
  have hplanned : ((compile (Text.ofString (Tree.print
      [("id", .scalar .utf8), ("tags", .list (.struct [("a", .scalar .utf8)]))]))).toOption.bind
        fun schema => (Plan.ofSchema schema .eager).toOption.map Plan.select) =
          some ["id", "a"] := by
    decide +kernel
  obtain ⟨schema, hschema, hplanned⟩ := Option.bind_eq_some_iff.mp hplanned
  obtain ⟨plan, hplan, -⟩ := Option.map_eq_some_iff.mp hplanned
  have hinfer : inferFields [.object [("id", .string "x"), ("tags", .array [])],
      .object [("tags", .array [.object [("a", .string "y")], .null])]] =
        .ok [("id", .scalar .utf8), ("tags", .list (.struct [("a", .scalar .utf8)]))] :=
    toOption_eq_some_iff.mp (by decide +kernel)
  have hspelled : FieldNamesSpelled
      [("id", .scalar .utf8), ("tags", .list (.struct [("a", .scalar .utf8)]))] :=
    ⟨by decide, trivial, by decide, ⟨by decide, trivial, trivial⟩, trivial⟩
  have hcompile : compile _ ({} : UnpackOptions).toCompileOptions = .ok schema :=
    toOption_eq_some_iff.mp hschema
  refine (unpackRecords_inferred hinfer hspelled hcompile (toOption_eq_some_iff.mp hplan)).mpr ?_
  refine List.forall_mem_cons.mpr ⟨?_, List.forall_mem_singleton.mpr ?_⟩
  · exact ⟨trivial, List.forall_mem_nil _, trivial⟩
  · refine ⟨trivial, List.forall_mem_cons.mpr ⟨⟨trivial, trivial⟩, ?_⟩, trivial⟩
    exact List.forall_mem_singleton.mpr trivial

/-- **Lists without content.** An empty list that is seen before the first object goes unnoticed,
and the records do not unpack by the struct that is inferred. Seen behind an object, the same list
is a conflict. -/
theorem unpackRecords_inferred_fails :
    inferFields [.object [("a", .array [])], .object [("a", .object [("c", .string "x")])]] =
      .ok [("a", .struct [("c", .scalar .utf8)])] ∧
    (∃ schema plan, compile
        (Text.ofString (Tree.print [("a", .struct [("c", .scalar .utf8)])])) = .ok schema ∧
      Plan.ofSchema schema .eager = .ok plan) ∧
    (∃ error, unpackRecords (Text.ofString (Tree.print [("a", .struct [("c", .scalar .utf8)])]))
        [.object [("a", .array [])], .object [("a", .object [("c", .string "x")])]] =
      .error error) ∧
    ∃ error, inferFields
        [.object [("a", .object [("c", .string "x")])], .object [("a", .array [])]] =
      .error error := by
  have hplanned : ((compile (Text.ofString
      (Tree.print [("a", .struct [("c", .scalar .utf8)])]))).toOption.bind
        fun schema => (Plan.ofSchema schema .eager).toOption.map Plan.select) = some ["c"] := by
    decide +kernel
  obtain ⟨schema, hschema, hplanned⟩ := Option.bind_eq_some_iff.mp hplanned
  obtain ⟨plan, hplan, -⟩ := Option.map_eq_some_iff.mp hplanned
  exact ⟨toOption_eq_some_iff.mp (by decide +kernel),
    ⟨schema, plan, toOption_eq_some_iff.mp hschema, toOption_eq_some_iff.mp hplan⟩,
    toOption_eq_none_iff.mp (by decide +kernel), toOption_eq_none_iff.mp (by decide +kernel)⟩

end NestedRecords
