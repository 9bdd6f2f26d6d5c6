import NestedRecords.Proofs.Gathering
import NestedRecords.Proofs.Inference.Evidence
import NestedRecords.Proofs.Tree.Places

/-!
# Inferring is gathering

What inference knows of a place can be told by facts (`Tree.Knows`), and so can what a value adds to
it. A value states what it shows of the places in it: a number, a string, an object, or a list that
has content. It denies everything else at a place where it has a number, a string, an object or a
list of any kind (`Value.States`, `Value.Denies`).

Merging a value gathers these facts (`Inference.gathers`), which is shown for one kind of value
after the other; for lists and objects it is gathering from their items and members in turn.

Lists without content are why stating and denying are two things: they deny that there is a string,
say, at their place, but do not state that there is a list.
-/

namespace NestedRecords

open NestedRecords.Tree

/-! ### What values state and deny -/

namespace Value

/-- Something that stands at a place in a value has a property. -/
def At (P : Value → Prop) : Place → Value → Prop
  | [], value => P value
  | none :: place, .array items => ∃ item ∈ items, At P place item
  | some name :: place, .object members =>
    ∃ member ∈ members, member.1 = name ∧ At P place member.2
  | _ :: _, _ => False

/-- What a value shows of the place that it stands at. -/
def Says : Value → Evidence → Prop
  | .number x, evidence => (Tree.scalar (Inference.numberDatatype x)).Says evidence
  | .string _, evidence => (Tree.scalar .utf8).Says evidence
  | .array items, evidence => ¬Hollow (.array items) ∧ evidence = .list
  | .object _, evidence => evidence = .struct
  | _, _ => False

/-- What a value cannot follow at the place that it stands at. -/
def Refuses : Value → Evidence → Prop
  | .number _, evidence => ¬(Tree.scalar .float64).Says evidence
  | .string _, evidence => ¬(Tree.scalar .utf8).Says evidence
  | .array _, evidence => evidence ≠ .list
  | .object _, evidence => evidence ≠ .struct
  | _, _ => False

/-- **Statements.** A fact that is shown by something in a value. -/
def States (value : Value) (fact : Place × Evidence) : Prop := value.At (·.Says fact.2) fact.1

/-- A fact that cannot be followed by something in a value. -/
def Denies (value : Value) (fact : Place × Evidence) : Prop := value.At (·.Refuses fact.2) fact.1

/-- Values without parts. -/
def Plain : Value → Prop
  | .array _ | .object _ => False
  | _ => True

/-- In a value without parts there is no other place than its own. -/
theorem Plain.at_iff {value : Value} (h : value.Plain) {P : Value → Prop} {place : Place} :
    value.At P place ↔ place = [] ∧ P value := by
  unfold At
  split
  · exact (and_iff_right rfl).symm
  · contradiction
  · contradiction
  · exact iff_of_false id fun h => List.cons_ne_nil _ _ h.1

end Value

namespace Inference

variable {name : String} {seen : Option Tree}

/-! ### Scalars -/

/-- Null states and denies nothing. -/
private theorem gathers_null :
    Gathers (mergeValue name) none Knows Value.States Value.Denies .null where
  known_iff h fact := by
    rw [mergeValue] at h
    obtain rfl := Except.ok.inj h
    have hplain : Value.null.Plain := trivial
    exact (or_iff_left fun hstates => (hplain.at_iff.mp hstates).2).symm
  ok_iff seen := by
    have hplain : Value.null.Plain := trivial
    exact iff_of_true ⟨seen, rfl⟩
      ⟨⟨none, rfl⟩, fun fact _ hdenies => (hplain.at_iff.mp hdenies).2⟩

/-- A truth value is wrong in itself. -/
private theorem gathers_bool (b : Bool) :
    Gathers (mergeValue name) none Knows Value.States Value.Denies (.bool b) where
  known_iff h := by
    rw [mergeValue] at h
    contradiction
  ok_iff seen := by
    simp [mergeValue]

/-- A scalar value can follow what is below its largest type, and it denies everything else. -/
private theorem scalar_ok_iff (value : Value) (hplain : value.Plain) {datatype : Datatype}
    (hrefuses : ∀ evidence, value.Refuses evidence ↔ ¬(scalar datatype).Says evidence)
    (hok : ∀ seen, (∃ merged, mergeValue name seen value = .ok merged) ↔
      PlaceBelow seen (some (scalar datatype))) (seen : Option Tree) :
    (∃ merged, mergeValue name seen value = .ok merged) ↔
      (∃ alone, mergeValue name none value = .ok alone) ∧
        ∀ fact, Knows seen fact → ¬value.Denies fact := by
  rw [hok, hok, and_iff_right (PlaceBelow.none _), placeBelow_scalar_iff]
  constructor
  · rintro h ⟨place, evidence⟩ hknown hdenies
    obtain ⟨rfl, hrefused⟩ := hplain.at_iff.mp hdenies
    exact (hrefuses evidence).mp hrefused (h evidence hknown)
  · intro h evidence hknown
    refine Classical.byContradiction fun hshows => h ([], evidence) hknown ?_
    exact hplain.at_iff.mpr ⟨rfl, (hrefuses evidence).mpr hshows⟩

/-- The scalar of a place and that of a value, one below the other, say together what the larger one
of them says. -/
private theorem scalar_known_iff (value : Value) (hplain : value.Plain) {datatype : Datatype}
    (hshows : ∀ evidence, value.Says evidence ↔ (scalar datatype).Says evidence)
    {seen : Option Tree} {larger : Datatype}
    (hseen : PlaceBelow seen (some (scalar larger)))
    (hvalue : (scalar datatype).Below (scalar larger))
    (hlarger : larger = datatype ∨ seen = some (scalar larger)) (fact : Place × Evidence) :
    Knows (some (scalar larger)) fact ↔ Knows seen fact ∨ value.States fact := by
  have hstates : value.States fact ↔ Knows (some (scalar datatype)) fact := by
    rw [Value.States, hplain.at_iff, knows_scalar_iff, hshows]
  rw [hstates]
  rcases hlarger with rfl | rfl
  · exact (or_iff_right_of_imp (hseen.knows fact)).symm
  · exact (or_iff_left_of_imp (hvalue.knows fact)).symm

private theorem gathers_string (s : String) :
    Gathers (mergeValue name) none Knows Value.States Value.Denies (.string s) where
  known_iff h fact := by
    rw [mergeValue] at h
    obtain ⟨type, htype, rfl⟩ := map_eq_ok_iff.mp h
    obtain rfl := (mergeString_eq_ok_iff.mp htype).2
    exact scalar_known_iff (.string s) trivial (fun _ => Iff.rfl)
      (mergeString_suits (s := s) htype).1 (.refl _) (.inl rfl) fact
  ok_iff := by
    refine scalar_ok_iff (.string s) trivial (fun _ => Iff.rfl) fun seen => ?_
    rw [mergeValue, exists_map_eq_ok_iff, placeBelow_scalar_iff_eq]
    simp [mergeString_eq_ok_iff]

private theorem gathers_number (x : Float) :
    Gathers (mergeValue name) none Knows Value.States Value.Denies (.number x) where
  known_iff h fact := by
    rw [mergeValue] at h
    obtain ⟨type, htype, rfl⟩ := map_eq_ok_iff.mp h
    have hbelow := (mergeNumber_suits htype).1
    rcases mergeNumber_eq_ok_iff.mp htype with ⟨-, rfl⟩ | ⟨rfl, rfl⟩
    · exact scalar_known_iff (.number x) trivial (fun _ => Iff.rfl) hbelow (.refl _) (.inl rfl) fact
    · exact scalar_known_iff (.number x) trivial (fun _ => Iff.rfl) hbelow
        (numberDatatype_below x) (.inr rfl) fact
  ok_iff := by
    refine scalar_ok_iff (.number x) trivial (fun _ => Iff.rfl) fun seen => ?_
    rw [mergeValue, exists_map_eq_ok_iff, placeBelow_scalar_iff_eq]
    constructor
    · rintro ⟨type, htype⟩
      rcases mergeNumber_eq_ok_iff.mp htype with ⟨hseen | hseen, -⟩ | ⟨hseen, -⟩
      · exact .inl hseen
      · exact .inr (.inr ⟨rfl, hseen⟩)
      · exact .inr (.inl hseen)
    · rintro (rfl | rfl | ⟨-, rfl⟩) <;> exact ⟨_, rfl⟩

/-! ### Lists -/

/-- Merging items is a fold. -/
theorem mergeItems_eq_foldlM (name : String) (items : List Value) : ∀ seen : Option Tree,
    mergeItems name seen items = items.foldlM (mergeValue name) seen := by
  induction items with
  | nil => exact fun _ => rfl
  | cons item rest ih =>
    intro seen
    rw [mergeItems, List.foldlM_cons]
    exact bind_congr fun later => ih later

/-- What shows something has content. -/
theorem not_hollow_of_says {value : Value} {evidence : Evidence} (h : value.Says evidence) :
    ¬value.Hollow := by
  intro hhollow
  cases hhollow with
  | null => exact h
  | array hitems => exact h.1 (.array hitems)

/-- What is known of the items of a list. -/
theorem knows_map_list_iff {place : Place} {evidence : Evidence} :
    Knows (seen.map .list) (none :: place, evidence) ↔ Knows seen (place, evidence) := by
  cases seen with
  | none => exact iff_of_false (not_knows_none _) (not_knows_none _)
  | some type => exact Iff.rfl

/-- There is a list, or not as far as is known. -/
theorem knows_map_list_nil_iff {evidence : Evidence} :
    Knows (seen.map .list) ([], evidence) ↔ seen.isSome ∧ evidence = .list := by
  cases seen with
  | none => exact iff_of_false (not_knows_none _) fun h => Bool.false_ne_true h.1
  | some type => exact (and_iff_right rfl).symm

theorem not_knows_map_list {seen : Option Tree} {name : String} {place : Place}
    {evidence : Evidence} : ¬Knows (seen.map .list) (some name :: place, evidence) := by
  cases seen <;> exact id

/-- There is an element type when there was one before or the list has content. -/
private theorem isSome_iff_of_items {items : List Value} {element later : Option Tree}
    (h : ∀ item ∈ items, Gathers (mergeValue name) none Knows Value.States Value.Denies item)
    (hlater : items.foldlM (mergeValue name) element = .ok later) :
    later.isSome ↔ element.isSome ∨ ¬(Value.array items).Hollow := by
  constructor
  · intro hsome
    obtain ⟨type, rfl⟩ := Option.isSome_iff_exists.mp hsome
    obtain ⟨evidence, hshows⟩ := exists_says type
    rcases (Gathers.known_foldlM h hlater ([], evidence)).mp hshows with
      hknown | ⟨item, hitem, hshows⟩
    · cases element with
      | none => exact absurd hknown (not_knows_none _)
      | some type => exact .inl rfl
    · refine .inr fun hhollow => not_hollow_of_says hshows ?_
      cases hhollow with
      | array hitems => exact hitems item hitem
  · intro hsome
    rw [← mergeItems_eq_foldlM] at hlater
    obtain ⟨hbelow, hsuit⟩ := mergeItems_suit items hlater
    cases later with
    | some type => rfl
    | none =>
      rcases hsome with hsome | hhollow
      · obtain ⟨type, rfl⟩ := Option.isSome_iff_exists.mp hsome
        obtain ⟨_, hnone, -⟩ := hbelow type rfl
        contradiction
      · exact absurd (.array hsuit) hhollow

/-- A list can be merged into what is known of a list. -/
theorem exists_mergeValue_array_iff {items : List Value} :
    (∃ merged, mergeValue name seen (.array items) = .ok merged) ↔
      ∃ element, seen = element.map .list ∧
        ∃ later, items.foldlM (mergeValue name) element = .ok later := by
  simp only [mergeValue, bind_pure_comp, exists_bind_eq_ok_iff, exists_map_eq_ok_iff,
    elementOf_eq_ok_iff, mergeItems_eq_foldlM]

private theorem gathers_array {items : List Value}
    (h : ∀ item ∈ items, Gathers (mergeValue name) none Knows Value.States Value.Denies item) :
    Gathers (mergeValue name) none Knows Value.States Value.Denies (.array items) where
  known_iff hmerged := by
    rw [mergeValue] at hmerged
    obtain ⟨element, helement, hmerged⟩ := bind_eq_ok_iff.mp hmerged
    obtain ⟨later, hlater, hmerged⟩ := bind_eq_ok_iff.mp hmerged
    obtain rfl := Except.ok.inj hmerged
    obtain rfl := elementOf_eq_ok_iff.mp helement
    rw [mergeItems_eq_foldlM] at hlater
    rintro ⟨_ | ⟨_ | name, place⟩, evidence⟩
    · rw [knows_map_list_nil_iff, knows_map_list_nil_iff, isSome_iff_of_items h hlater,
        or_and_right]
      rfl
    · rw [knows_map_list_iff, knows_map_list_iff, Gathers.known_foldlM h hlater]
      rfl
    · exact iff_of_false not_knows_map_list (not_or.mpr ⟨not_knows_map_list, id⟩)
  ok_iff seen := by
    have hitems := Gathers.foldlM not_knows_none h
    rw [exists_mergeValue_array_iff, exists_mergeValue_array_iff]
    constructor
    · rintro ⟨element, rfl, hlater⟩
      obtain ⟨halone, hnone⟩ := (hitems.ok_iff element).mp hlater
      refine ⟨⟨none, rfl, halone⟩, ?_⟩
      rintro ⟨_ | ⟨_ | name, place⟩, evidence⟩ hknown hdenies
      · exact hdenies (knows_map_list_nil_iff.mp hknown).2
      · exact hnone (place, evidence) (knows_map_list_iff.mp hknown) hdenies
      · exact hdenies
    · rintro ⟨⟨start, hstart, halone⟩, hnone⟩
      obtain rfl := Option.map_eq_none_iff.mp hstart.symm
      -- a list denies all there can be at its place but a list
      have hlist : ∃ element : Option Tree, seen = element.map .list := by
        match seen with
        | none => exact ⟨none, rfl⟩
        | some (.list element) => exact ⟨some element, rfl⟩
        | some (.scalar datatype) => exact absurd nofun (hnone ([], .scalar datatype) (.inl rfl))
        | some (.struct fields) => exact absurd nofun (hnone ([], .struct) rfl)
      obtain ⟨element, rfl⟩ := hlist
      refine ⟨element, rfl, (hitems.ok_iff element).mpr ⟨halone, fun fact hknown hdenies => ?_⟩⟩
      exact hnone (none :: fact.1, fact.2) (knows_map_list_iff.mpr hknown) hdenies

/-! ### Objects -/

/-- The fields of a struct once one member is seen. -/
def mergeMember (fields : Fields) (member : String × Value) : Except InferenceError Fields :=
  (setField member.1 · fields) <$> mergeValue member.1 (fields.lookup member.1) member.2

/-- Merging members is a fold. -/
theorem mergeMembers_eq_foldlM (members : List (String × Value)) : ∀ fields : Fields,
    mergeMembers fields members = members.foldlM mergeMember fields := by
  induction members with
  | nil => exact fun _ => rfl
  | cons member rest ih =>
    intro fields
    rw [mergeMembers, List.foldlM_cons, mergeMember, bind_map_left]
    exact bind_congr fun type => ih _

/-- What is known of the fields of a struct, each fact with the name of a field. -/
def FieldsKnow (fields : Fields) (fact : String × Place × Evidence) : Prop :=
  Knows (fields.lookup fact.1) fact.2

/-- What a member shows of the field of its name. -/
def MemberStates (member : String × Value) (fact : String × Place × Evidence) : Prop :=
  member.1 = fact.1 ∧ member.2.States fact.2

/-- What a member cannot follow. -/
def MemberDenies (member : String × Value) (fact : String × Place × Evidence) : Prop :=
  member.1 = fact.1 ∧ member.2.Denies fact.2

/-- A struct whose fields know less is below. -/
theorem below_of_fieldsKnow {fields others : Fields}
    (h : ∀ fact, FieldsKnow fields fact → FieldsKnow others fact) :
    (struct fields).Below (struct others) :=
  below_struct_iff.mpr fun name => placeBelow_of_knows fields name fun fact => h (name, fact)

theorem not_fieldsKnow_nil (fact : String × Place × Evidence) : ¬FieldsKnow [] fact :=
  not_knows_none fact.2

/-- A member is gathered from when its value is. -/
private theorem gathers_member {member : String × Value}
    (h : Gathers (mergeValue member.1) none Knows Value.States Value.Denies member.2) :
    Gathers mergeMember [] FieldsKnow MemberStates MemberDenies member where
  known_iff hnext := by
    obtain ⟨type, htype, rfl⟩ := map_eq_ok_iff.mp hnext
    rintro ⟨name, fact⟩
    rw [FieldsKnow, FieldsKnow, MemberStates, lookup_setField (mergeValue_suits _ htype).1]
    by_cases hname : name = member.1
    · rw [if_pos hname, h.known_iff htype, hname, eq_self, true_and]
    · rw [if_neg hname]
      exact (or_iff_left fun hstates => hname hstates.1.symm).symm
  ok_iff fields := by
    rw [mergeMember, mergeMember, exists_map_eq_ok_iff, exists_map_eq_ok_iff, h.ok_iff,
      List.lookup_nil]
    refine and_congr_right fun _ => ⟨?_, fun hnone fact hknown hdenies => ?_⟩
    · rintro hnone ⟨_, fact⟩ hknown ⟨rfl, hdenies⟩
      exact hnone fact hknown hdenies
    · exact hnone (member.1, fact) hknown ⟨rfl, hdenies⟩

/-- An object can be merged into what is known of a struct. -/
theorem exists_mergeValue_object_iff {members : List (String × Value)} :
    (∃ merged, mergeValue name seen (.object members) = .ok merged) ↔
      ∃ fields, fieldsOf name seen = .ok fields ∧
        ∃ later, members.foldlM mergeMember fields = .ok later := by
  simp only [mergeValue, bind_pure_comp, exists_bind_eq_ok_iff, exists_map_eq_ok_iff,
    mergeMembers_eq_foldlM]

private theorem gathers_object {members : List (String × Value)}
    (h : ∀ member ∈ members, Gathers mergeMember [] FieldsKnow MemberStates MemberDenies member) :
    Gathers (mergeValue name) none Knows Value.States Value.Denies (.object members) where
  known_iff hmerged := by
    rw [mergeValue] at hmerged
    obtain ⟨fields, hfields, hmerged⟩ := bind_eq_ok_iff.mp hmerged
    obtain ⟨later, hlater, hmerged⟩ := bind_eq_ok_iff.mp hmerged
    obtain rfl := Except.ok.inj hmerged
    rw [mergeMembers_eq_foldlM] at hlater
    have hstruct : ∀ fact, Knows (some (.struct later)) fact ↔
        Knows (some (.struct fields)) fact ∨ (Value.object members).States fact := by
      rintro ⟨_ | ⟨_ | name, place⟩, evidence⟩
      · exact or_self_iff.symm
      · exact or_self_iff.symm
      · exact Gathers.known_foldlM h hlater (name, place, evidence)
    rcases fieldsOf_eq_ok_iff.mp hfields with ⟨rfl, rfl⟩ | rfl
    · intro fact
      rw [hstruct, or_iff_right (not_knows_none fact)]
      refine or_iff_right_of_imp fun hknown => ?_
      obtain ⟨_ | ⟨_ | name, place⟩, evidence⟩ := fact
      · exact hknown
      · exact hknown
      · exact (not_knows_none (place, evidence) hknown).elim
    · exact hstruct
  ok_iff seen := by
    have hmembers := Gathers.foldlM not_fieldsKnow_nil h
    rw [exists_mergeValue_object_iff, exists_mergeValue_object_iff]
    constructor
    · rintro ⟨fields, hfields, hlater⟩
      obtain ⟨halone, hnone⟩ := (hmembers.ok_iff fields).mp hlater
      refine ⟨⟨[], rfl, halone⟩, ?_⟩
      rcases fieldsOf_eq_ok_iff.mp hfields with ⟨rfl, -⟩ | rfl
      · exact fun fact hknown => absurd hknown (not_knows_none fact)
      · rintro ⟨_ | ⟨_ | name, place⟩, evidence⟩ hknown hdenies
        · exact hdenies hknown
        · exact hknown
        · exact hnone (name, place, evidence) hknown hdenies
    · rintro ⟨⟨start, hstart, halone⟩, hnone⟩
      obtain rfl := Except.ok.inj hstart
      -- an object denies all there can be at its place but a struct
      match seen with
      | none => exact ⟨[], rfl, halone⟩
      | some (.struct fields) =>
        refine ⟨fields, rfl, (hmembers.ok_iff fields).mpr ⟨halone, fun fact hknown hdenies => ?_⟩⟩
        exact hnone (some fact.1 :: fact.2.1, fact.2.2) hknown hdenies
      | some (.scalar datatype) => exact absurd nofun (hnone ([], .scalar datatype) (.inl rfl))
      | some (.list element) => exact absurd nofun (hnone ([], .list) rfl)

/-! ### All values -/

mutual

/-- **Merging a value is gathering from it.** -/
theorem gathers : ∀ (value : Value) (name : String),
    Gathers (mergeValue name) none Knows Value.States Value.Denies value
  | .null, _ => gathers_null
  | .bool b, _ => gathers_bool b
  | .number x, _ => gathers_number x
  | .string s, _ => gathers_string s
  | .array items, name => gathers_array (gathers_items items name)
  | .object members, _ => gathers_object (gathers_members members)

private theorem gathers_items : ∀ (items : List Value) (name : String), ∀ item ∈ items,
    Gathers (mergeValue name) none Knows Value.States Value.Denies item
  | [], _ => List.forall_mem_nil _
  | item :: rest, name => List.forall_mem_cons.mpr ⟨gathers item name, gathers_items rest name⟩

private theorem gathers_members : ∀ (members : List (String × Value)), ∀ member ∈ members,
    Gathers mergeMember [] FieldsKnow MemberStates MemberDenies member
  | [] => List.forall_mem_nil _
  | (name, value) :: rest =>
    List.forall_mem_cons.mpr ⟨gathers_member (gathers value name), gathers_members rest⟩

end

/-! ### All records -/

/-- What a record states, each fact with the name of a field. -/
def RecordStates (record : Value) (fact : String × Place × Evidence) : Prop :=
  ∃ member ∈ record.entries, MemberStates member fact

/-- What a record denies. -/
def RecordDenies (record : Value) (fact : String × Place × Evidence) : Prop :=
  ∃ member ∈ record.entries, MemberDenies member fact

/-- **Inference gathers from records.** -/
theorem gathers_record (record : Value) :
    Gathers (fun fields record => mergeMembers fields record.entries) [] FieldsKnow RecordStates
      RecordDenies record := by
  simp only [mergeMembers_eq_foldlM]
  exact (Gathers.foldlM not_fieldsKnow_nil (gathers_members record.entries)).comp Value.entries

/-- **What is inferred.** The fields know what the records state. -/
theorem fieldsKnow_iff {records : List Value} {fields : Fields}
    (h : inferFields records = .ok fields) (fact : String × Place × Evidence) :
    FieldsKnow fields fact ↔ ∃ record ∈ records, RecordStates record fact := by
  rw [Gathers.known_foldlM (fun record _ => gathers_record record) h,
    or_iff_right (not_fieldsKnow_nil fact)]

end Inference

end NestedRecords
