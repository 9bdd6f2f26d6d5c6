import NestedRecords.Proofs.Inference.Names
import NestedRecords.Proofs.Tree.Order

/-!
# What inference has seen

Inferring looks at one value after the other, and with each of them it knows more. What is known at
the end says something about every value on the way: this is `Tree.Suits`. Values without any
content suit all types. A value that has content suits a type that has the shape of it, all the way
down; what a scalar type is made of does not matter.

Merging a value into what is known of a place (`Inference.mergeValue_suits`) gives something larger
that the value suits, and what a value suits it also suits later (`Tree.Suits.mono`). So in the end
all values suit (`suits_of_inferFields`).

A list and an object never suit the same type, with one exception: lists without content come
without any evidence of being lists.
-/

namespace NestedRecords

/-- Values without content: null, and lists of nothing else. -/
inductive Value.Hollow : Value → Prop
  | null : Hollow .null
  | array {items : List Value} (h : ∀ item ∈ items, item.Hollow) : Hollow (.array items)

namespace Tree

/-- **Values that suit a type.** Without content they suit any type, and otherwise the type has
their shape. Every member of an object that has content is the value of a field. -/
inductive Suits : Tree → Value → Prop
  | hollow (type : Tree) {value : Value} (h : value.Hollow) : Suits type value
  | scalar (datatype : Datatype) (value : Value) : Suits (.scalar datatype) value
  | array {element : Tree} {items : List Value} (h : ∀ item ∈ items, Suits element item) :
    Suits (.list element) (.array items)
  | object {fields : List (String × Tree)} {members : List (String × Value)}
    (unknown : ∀ member ∈ members, fields.lookup member.1 = none → member.2.Hollow)
    (known : ∀ member ∈ members, ∀ type, fields.lookup member.1 = some type →
      Suits type member.2) :
    Suits (.struct fields) (.object members)

/-- Values that suit what is known of a place; as long as that is nothing, they have no content. -/
def PlaceSuits (seen : Option Tree) (value : Value) : Prop :=
  match seen with
  | none => value.Hollow
  | some type => type.Suits value

/-- Each of some members suits the field of its name. -/
def MembersSuit (fields : Fields) (members : List (String × Value)) : Prop :=
  ∀ member ∈ members, PlaceSuits (fields.lookup member.1) member.2

theorem placeSuits_of_hollow {value : Value} (h : value.Hollow) (seen : Option Tree) :
    PlaceSuits seen value := by
  cases seen with
  | none => exact h
  | some type => exact .hollow type h

theorem Suits.of_members {fields : Fields} {members : List (String × Value)}
    (h : MembersSuit fields members) : (struct fields).Suits (.object members) := by
  refine .object (fun member hmember hnone => ?_) fun member hmember type hsome => ?_
  · have hplace := h member hmember
    rwa [hnone] at hplace
  · have hplace := h member hmember
    rwa [hsome] at hplace

theorem suits_object_iff {fields : Fields} {members : List (String × Value)} :
    (struct fields).Suits (.object members) ↔ MembersSuit fields members := by
  refine ⟨fun h member hmember => ?_, .of_members⟩
  cases h with
  | hollow _ h => cases h
  | object unknown known =>
    cases hlookup : fields.lookup member.1 with
    | none => exact unknown member hmember hlookup
    | some type => exact known member hmember type hlookup

theorem suits_array_iff {element : Tree} {items : List Value} :
    (list element).Suits (.array items) ↔ ∀ item ∈ items, element.Suits item := by
  refine ⟨fun h item hitem => ?_, .array⟩
  cases h with
  | hollow _ h =>
    cases h with
    | array h => exact .hollow element (h item hitem)
  | array h => exact h item hitem

/-- **More evidence.** What suits a type suits a larger one. -/
theorem Suits.mono {type larger : Tree} {value : Value} (h : type.Suits value) :
    type.Below larger → larger.Suits value := by
  induction h generalizing larger with
  | hollow _ h => exact fun _ => .hollow larger h
  | scalar datatype value =>
    rintro (_ | _)
    · exact .scalar datatype value
    · exact .scalar .float64 value
  | array _ ih =>
    rintro ⟨⟩
    rename_i hbelow
    exact .array fun item hitem => ih item hitem hbelow
  | @object fields members unknown known ih =>
    intro hbelow
    cases hbelow with
    | @struct _ others hknown hbelow =>
      refine .of_members fun member hmember => ?_
      cases hlookup : fields.lookup member.1 with
      | none => exact placeSuits_of_hollow (unknown member hmember hlookup) _
      | some type =>
        obtain ⟨larger, hlarger⟩ :=
          Option.isSome_iff_exists.mp (hknown member.1 (by rw [hlookup]; rfl))
        rw [hlarger]
        exact ih member hmember type hlookup (hbelow _ type larger hlookup hlarger)

theorem PlaceSuits.mono {seen later : Option Tree} {value : Value} (h : PlaceSuits seen value)
    (hbelow : PlaceBelow seen later) : PlaceSuits later value := by
  cases seen with
  | none => exact placeSuits_of_hollow h later
  | some type =>
    obtain ⟨larger, rfl, hlarger⟩ := hbelow type rfl
    exact Suits.mono h hlarger

theorem MembersSuit.mono {fields later : Fields} {members : List (String × Value)}
    (h : MembersSuit fields members)
    (hbelow : ∀ name, PlaceBelow (fields.lookup name) (later.lookup name)) :
    MembersSuit later members :=
  fun member hmember => (h member hmember).mono (hbelow member.1)

end Tree

namespace Inference

open NestedRecords.Tree

/-! ### Merging one value -/

variable {name : String} {seen merged : Option Tree}

/-- Whole numbers ask for the least, and all numbers can be `float64`. -/
theorem below_numberDatatype (x : Float) :
    (scalar .int64).Below (.scalar (numberDatatype x)) := by
  unfold numberDatatype
  split
  · exact .refl _
  · exact .widen

theorem numberDatatype_below (x : Float) :
    (scalar (numberDatatype x)).Below (.scalar .float64) := by
  unfold numberDatatype
  split
  · exact .widen
  · exact .refl _

/-- The type of a place at which a number was seen. -/
theorem mergeNumber_suits {x : Float} {type : Tree} (h : mergeNumber name seen x = .ok type) :
    PlaceBelow seen (some type) ∧ type.Suits (.number x) := by
  rcases mergeNumber_eq_ok_iff.mp h with ⟨rfl | rfl, rfl⟩ | ⟨rfl, rfl⟩
  · exact ⟨.none _, .scalar _ _⟩
  · exact ⟨placeBelow_some_iff.mpr ⟨_, rfl, below_numberDatatype x⟩, .scalar _ _⟩
  · exact ⟨.refl _, .scalar _ _⟩

/-- The type of a place at which a string was seen. -/
theorem mergeString_suits {s : String} {type : Tree} (h : mergeString name seen = .ok type) :
    PlaceBelow seen (some type) ∧ type.Suits (.string s) := by
  obtain ⟨rfl | rfl, rfl⟩ := mergeString_eq_ok_iff.mp h
  · exact ⟨.none _, .scalar _ _⟩
  · exact ⟨.refl _, .scalar _ _⟩

/-- What is known of an element is known of the list. -/
theorem placeBelow_list {element : Option Tree} (h : PlaceBelow element merged) :
    PlaceBelow (element.map .list) (merged.map .list) := by
  intro type htype
  obtain ⟨inner, hinner, rfl⟩ := Option.map_eq_some_iff.mp htype
  obtain ⟨larger, rfl, hlarger⟩ := h inner hinner
  exact ⟨_, rfl, .list hlarger⟩

/-- What is known of the fields is known of the struct. -/
theorem placeBelow_struct {fields later : Fields} (h : fieldsOf name seen = .ok fields)
    (hbelow : ∀ name, PlaceBelow (fields.lookup name) (later.lookup name)) :
    PlaceBelow seen (some (.struct later)) := by
  rcases fieldsOf_eq_ok_iff.mp h with ⟨rfl, -⟩ | rfl
  · exact .none _
  · exact placeBelow_some_iff.mpr ⟨_, rfl, below_struct_iff.mpr hbelow⟩

/-- Setting the field of a name to what is known of it by now. -/
theorem lookup_setField {fields : Fields} (h : PlaceBelow (fields.lookup name) merged)
    (other : String) : (setField name merged fields).lookup other =
      if other = name then merged else fields.lookup other := by
  cases merged with
  | some type => exact Assoc.lookup_insert name type fields other
  | none =>
    rw [setField]
    split
    · rename_i heq
      rw [heq]
      refine Option.eq_none_iff_forall_ne_some.mpr fun type htype => ?_
      obtain ⟨_, hnone, -⟩ := h type htype
      contradiction
    · rfl

/-- Setting a field only adds to what is known of a struct. -/
theorem placeBelow_setField {fields : Fields} (h : PlaceBelow (fields.lookup name) merged)
    (other : String) :
    PlaceBelow (fields.lookup other) ((setField name merged fields).lookup other) := by
  rw [lookup_setField h]
  split
  · rename_i heq
    exact heq ▸ h
  · exact .refl _

mutual

/-- **Merging a value.** What is known of a place becomes larger, and the value suits it. -/
theorem mergeValue_suits {name : String} : ∀ (value : Value) {seen merged : Option Tree},
    mergeValue name seen value = .ok merged → PlaceBelow seen merged ∧ PlaceSuits merged value
  | .null, seen, merged, h => by
    rw [mergeValue] at h
    obtain rfl := Except.ok.inj h
    exact ⟨.refl _, placeSuits_of_hollow .null _⟩
  | .bool _, _, _, h => by
    rw [mergeValue] at h
    contradiction
  | .number x, seen, merged, h => by
    rw [mergeValue] at h
    obtain ⟨type, htype, rfl⟩ := map_eq_ok_iff.mp h
    exact mergeNumber_suits htype
  | .string s, seen, merged, h => by
    rw [mergeValue] at h
    obtain ⟨type, htype, rfl⟩ := map_eq_ok_iff.mp h
    exact mergeString_suits htype
  | .array items, seen, merged, h => by
    rw [mergeValue] at h
    obtain ⟨element, helement, h⟩ := bind_eq_ok_iff.mp h
    obtain ⟨later, hlater, h⟩ := bind_eq_ok_iff.mp h
    obtain rfl := Except.ok.inj h
    obtain rfl := elementOf_eq_ok_iff.mp helement
    obtain ⟨hbelow, hsuit⟩ := mergeItems_suit items hlater
    refine ⟨placeBelow_list hbelow, ?_⟩
    cases later with
    | none => exact .array hsuit
    | some type => exact .array hsuit
  | .object members, seen, merged, h => by
    rw [mergeValue] at h
    obtain ⟨fields, hfields, h⟩ := bind_eq_ok_iff.mp h
    obtain ⟨later, hlater, h⟩ := bind_eq_ok_iff.mp h
    obtain rfl := Except.ok.inj h
    obtain ⟨hbelow, hsuit⟩ := mergeMembers_suit members hlater
    exact ⟨placeBelow_struct hfields hbelow, .of_members hsuit⟩

/-- **Merging items.** What is known of the element becomes larger, and all items suit it. -/
theorem mergeItems_suit {name : String} : ∀ (items : List Value) {seen merged : Option Tree},
    mergeItems name seen items = .ok merged →
      PlaceBelow seen merged ∧ ∀ item ∈ items, PlaceSuits merged item
  | [], seen, merged, h => by
    rw [mergeItems] at h
    obtain rfl := Except.ok.inj h
    exact ⟨.refl _, nofun⟩
  | item :: rest, seen, merged, h => by
    rw [mergeItems] at h
    obtain ⟨later, hlater, h⟩ := bind_eq_ok_iff.mp h
    obtain ⟨hbelow, hitem⟩ := mergeValue_suits item hlater
    obtain ⟨hbelow', hrest⟩ := mergeItems_suit rest h
    exact ⟨hbelow.trans hbelow', List.forall_mem_cons.mpr ⟨hitem.mono hbelow', hrest⟩⟩

/-- **Merging members.** What is known of the fields becomes larger, and all members suit them. -/
theorem mergeMembers_suit : ∀ (members : List (String × Value)) {fields merged : Fields},
    mergeMembers fields members = .ok merged →
      (∀ name, PlaceBelow (fields.lookup name) (merged.lookup name)) ∧ MembersSuit merged members
  | [], fields, merged, h => by
    rw [mergeMembers] at h
    obtain rfl := Except.ok.inj h
    exact ⟨fun _ => .refl _, nofun⟩
  | (name, value) :: rest, fields, merged, h => by
    rw [mergeMembers] at h
    obtain ⟨type, htype, h⟩ := bind_eq_ok_iff.mp h
    obtain ⟨hbelow, hvalue⟩ := mergeValue_suits value htype
    obtain ⟨hbelow', hrest⟩ := mergeMembers_suit rest h
    refine ⟨fun other => (placeBelow_setField hbelow other).trans (hbelow' other), ?_⟩
    refine List.forall_mem_cons.mpr ⟨PlaceSuits.mono hvalue ?_, hrest⟩
    have hplace := hbelow' name
    rwa [lookup_setField hbelow, if_pos rfl] at hplace

end

end Inference

/-! ### All records -/

open Inference NestedRecords.Tree

/-- **All evidence counts.** The members of all records suit the fields inferred from them. -/
theorem suits_of_inferFields {records : List Value} {fields : Fields}
    (h : inferFields records = .ok fields) :
    ∀ record ∈ records, MembersSuit fields record.entries := by
  rw [inferFields_eq] at h
  intro record hrecord member hmember
  exact (mergeMembers_suit _ h).2 member (List.mem_flatMap.mpr ⟨record, hrecord, hmember⟩)

end NestedRecords
