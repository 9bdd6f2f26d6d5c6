import NestedRecords.Inference
import NestedRecords.Proofs.Outcome
import NestedRecords.Proofs.Tree.Leaves

/-!
# Names in inferred types

Inferring from records is merging all their members into no fields at all (`inferFields_eq`). So a
name among the inferred fields is the name of a member, and as a field is set under its name, no
name comes twice, neither among the fields nor in any struct below them.
-/

namespace NestedRecords

namespace Inference

/-! ### What single values ask for -/

variable {name : String} {seen : Option Tree}

/-- A number asks for a scalar, which is the larger one of two. -/
theorem mergeNumber_eq_ok_iff {x : Float} {type : Tree} : mergeNumber name seen x = .ok type ↔
    (seen = none ∨ seen = some (.scalar .int64)) ∧ type = .scalar (numberDatatype x) ∨
      seen = some (.scalar .float64) ∧ type = .scalar .float64 := by
  constructor
  · intro h
    unfold mergeNumber at h
    split at h
    · exact .inl ⟨.inl rfl, (Except.ok.inj h).symm⟩
    · exact .inl ⟨.inr rfl, (Except.ok.inj h).symm⟩
    · exact .inr ⟨rfl, (Except.ok.inj h).symm⟩
    · contradiction
  · rintro (⟨rfl | rfl, rfl⟩ | ⟨rfl, rfl⟩) <;> rfl

theorem eq_scalar_of_mergeNumber {x : Float} {type : Tree}
    (h : mergeNumber name seen x = .ok type) : ∃ datatype, type = .scalar datatype := by
  rcases mergeNumber_eq_ok_iff.mp h with ⟨-, rfl⟩ | ⟨-, rfl⟩
  · exact ⟨_, rfl⟩
  · exact ⟨_, rfl⟩

/-- A string asks for a scalar of strings. -/
theorem mergeString_eq_ok_iff {type : Tree} : mergeString name seen = .ok type ↔
    (seen = none ∨ seen = some (.scalar .utf8)) ∧ type = .scalar .utf8 := by
  constructor
  · intro h
    unfold mergeString at h
    split at h
    · exact ⟨.inl rfl, (Except.ok.inj h).symm⟩
    · exact ⟨.inr rfl, (Except.ok.inj h).symm⟩
    · contradiction
  · rintro ⟨rfl | rfl, rfl⟩ <;> rfl

/-- A list asks for a list. -/
theorem elementOf_eq_ok_iff {element : Option Tree} :
    elementOf name seen = .ok element ↔ seen = element.map .list := by
  constructor
  · intro h
    unfold elementOf at h
    split at h
    · rw [← Except.ok.inj h, Option.map_none]
    · rw [← Except.ok.inj h, Option.map_some]
    · contradiction
  · rintro rfl
    cases element <;> rfl

/-- An object asks for a struct. -/
theorem fieldsOf_eq_ok_iff {fields : Fields} : fieldsOf name seen = .ok fields ↔
    seen = none ∧ fields = [] ∨ seen = some (.struct fields) := by
  constructor
  · intro h
    unfold fieldsOf at h
    split at h
    · exact .inl ⟨rfl, (Except.ok.inj h).symm⟩
    · exact .inr (by rw [← Except.ok.inj h])
    · contradiction
  · rintro (⟨rfl, rfl⟩ | rfl) <;> rfl

/-! ### Merging members in turn -/

/-- Members may be merged in two parts. -/
theorem mergeMembers_append (members others : List (String × Value)) : ∀ fields : Fields,
    mergeMembers fields (members ++ others) =
      mergeMembers fields members >>= fun merged => mergeMembers merged others := by
  induction members with
  | nil => exact fun _ => rfl
  | cons member rest ih =>
    intro fields
    rw [List.cons_append, mergeMembers, mergeMembers, bind_assoc]
    exact bind_congr fun type => ih _

/-- Merging members adds no other fields than theirs. -/
theorem keys_mergeMembers {members : List (String × Value)} :
    ∀ {fields merged : Fields}, mergeMembers fields members = .ok merged →
      Assoc.keys merged ⊆ Assoc.keys fields ++ Assoc.keys members := by
  induction members with
  | nil =>
    intro fields merged h
    rw [mergeMembers] at h
    obtain rfl := Except.ok.inj h
    exact List.subset_append_left _ _
  | cons member rest ih =>
    intro fields merged h other hother
    rw [mergeMembers] at h
    obtain ⟨type, -, h⟩ := bind_eq_ok_iff.mp h
    have hset : Assoc.keys (setField member.1 type fields) ⊆ Assoc.keys fields ++ [member.1] := by
      cases type with
      | none => exact List.subset_append_left _ _
      | some type =>
        rw [setField, Assoc.keys_insert]
        split
        · exact List.subset_append_left _ _
        · exact List.Subset.refl _
    have hmem : other ∈ (Assoc.keys fields ++ [member.1]) ++ Assoc.keys rest :=
      List.mem_append.mpr ((List.mem_append.mp (ih h hother)).imp_left fun hmem => hset hmem)
    rw [List.append_assoc] at hmem
    exact hmem

/-! ### Distinct names -/

open NestedRecords.Tree

/-- What is known of a place has distinct names. -/
def PlaceDistinct (seen : Option Tree) : Prop := ∀ type, seen = some type → type.NamesDistinct

theorem placeDistinct_scalar (datatype : Datatype) : PlaceDistinct (some (.scalar datatype)) := by
  rintro _ ⟨⟩
  trivial

/-- The types of fields with distinct names have distinct names. -/
theorem placeDistinct_lookup {fields : Fields} (h : FieldNamesDistinct fields) (name : String) :
    PlaceDistinct (fields.lookup name) := by
  induction fields with
  | nil => exact nofun
  | cons field rest ih =>
    obtain ⟨htype, hrest⟩ := h
    rw [List.lookup_cons]
    split
    · rintro _ ⟨⟩
      exact htype
    · exact ih hrest

theorem fieldNamesDistinct_insert {fields : Fields} {name : String} {type : Tree}
    (h : FieldNamesDistinct fields) (htype : type.NamesDistinct) :
    FieldNamesDistinct (Assoc.insert name type fields) := by
  induction fields with
  | nil => exact ⟨htype, trivial⟩
  | cons field rest ih =>
    obtain ⟨hfield, hrest⟩ := h
    rw [Assoc.insert]
    split
    · exact ⟨htype, hrest⟩
    · exact ⟨hfield, ih hrest⟩

theorem namesDistinct_nil : (struct []).NamesDistinct := ⟨List.nodup_nil, trivial⟩

/-- Setting a field keeps the names of a struct distinct. -/
theorem namesDistinct_setField {fields : Fields} {name : String} {type : Option Tree}
    (h : (struct fields).NamesDistinct) (htype : PlaceDistinct type) :
    (struct (setField name type fields)).NamesDistinct := by
  cases type with
  | none => exact h
  | some type =>
    exact ⟨Assoc.nodup_keys_insert name type h.1, fieldNamesDistinct_insert h.2 (htype type rfl)⟩

mutual

/-- **Step lemma.** Merging a value keeps the names of a type distinct. -/
theorem mergeValue_distinct {name : String} : ∀ (value : Value) {seen merged : Option Tree},
    PlaceDistinct seen → mergeValue name seen value = .ok merged → PlaceDistinct merged
  | .null, seen, merged, hseen, h => by
    rw [mergeValue] at h
    obtain rfl := Except.ok.inj h
    exact hseen
  | .bool _, _, _, _, h => by
    rw [mergeValue] at h
    contradiction
  | .number x, seen, merged, _, h => by
    rw [mergeValue] at h
    obtain ⟨type, htype, rfl⟩ := map_eq_ok_iff.mp h
    obtain ⟨datatype, rfl⟩ := eq_scalar_of_mergeNumber htype
    exact placeDistinct_scalar datatype
  | .string s, seen, merged, _, h => by
    rw [mergeValue] at h
    obtain ⟨type, htype, rfl⟩ := map_eq_ok_iff.mp h
    obtain ⟨-, rfl⟩ := mergeString_eq_ok_iff.mp htype
    exact placeDistinct_scalar .utf8
  | .array items, seen, merged, hseen, h => by
    rw [mergeValue] at h
    obtain ⟨element, helement, h⟩ := bind_eq_ok_iff.mp h
    obtain ⟨later, hlater, h⟩ := bind_eq_ok_iff.mp h
    obtain rfl := Except.ok.inj h
    obtain rfl := elementOf_eq_ok_iff.mp helement
    have hdistinct : PlaceDistinct element := fun type htype =>
      hseen (.list type) (by rw [htype, Option.map_some])
    intro type htype
    obtain ⟨inner, hinner, rfl⟩ := Option.map_eq_some_iff.mp htype
    exact mergeItems_distinct items hdistinct hlater inner hinner
  | .object members, seen, merged, hseen, h => by
    rw [mergeValue] at h
    obtain ⟨fields, hfields, h⟩ := bind_eq_ok_iff.mp h
    obtain ⟨later, hlater, h⟩ := bind_eq_ok_iff.mp h
    obtain rfl := Except.ok.inj h
    have hdistinct : (struct fields).NamesDistinct := by
      rcases fieldsOf_eq_ok_iff.mp hfields with ⟨-, rfl⟩ | rfl
      · exact namesDistinct_nil
      · exact hseen _ rfl
    rintro _ ⟨⟩
    exact mergeMembers_distinct members hdistinct hlater

/-- Merging items keeps the names of their type distinct. -/
theorem mergeItems_distinct {name : String} : ∀ (items : List Value) {seen merged : Option Tree},
    PlaceDistinct seen → mergeItems name seen items = .ok merged → PlaceDistinct merged
  | [], seen, merged, hseen, h => by
    rw [mergeItems] at h
    obtain rfl := Except.ok.inj h
    exact hseen
  | item :: rest, seen, merged, hseen, h => by
    rw [mergeItems] at h
    obtain ⟨later, hlater, h⟩ := bind_eq_ok_iff.mp h
    exact mergeItems_distinct rest (mergeValue_distinct item hseen hlater) h

/-- Merging members keeps the names of their struct distinct. -/
theorem mergeMembers_distinct : ∀ (members : List (String × Value)) {fields merged : Fields},
    (struct fields).NamesDistinct → mergeMembers fields members = .ok merged →
      (struct merged).NamesDistinct
  | [], fields, merged, hfields, h => by
    rw [mergeMembers] at h
    obtain rfl := Except.ok.inj h
    exact hfields
  | (name, value) :: rest, fields, merged, hfields, h => by
    rw [mergeMembers] at h
    obtain ⟨type, htype, h⟩ := bind_eq_ok_iff.mp h
    have hvalue := mergeValue_distinct value (placeDistinct_lookup hfields.2 name) htype
    exact mergeMembers_distinct rest (namesDistinct_setField hfields hvalue) h

end

end Inference

/-! ### All records -/

open Inference

variable {records : List Value} {fields : Fields}

/-- **One record after the other.** Inferring from records is inferring from all their members. -/
theorem inferFields_eq (records : List Value) :
    inferFields records = mergeMembers [] (records.flatMap Value.entries) := by
  have hrun : ∀ (records : List Value) (seen : Fields),
      records.foldlM (fun fields record => mergeMembers fields record.entries) seen =
        mergeMembers seen (records.flatMap Value.entries) := by
    intro records
    induction records with
    | nil => exact fun _ => rfl
    | cons record rest ih =>
      intro seen
      rw [List.foldlM_cons, List.flatMap_cons, mergeMembers_append]
      exact bind_congr fun later => ih later
  exact hrun records []

/-- The names of the inferred fields are names in the records. -/
theorem keys_inferFields (h : inferFields records = .ok fields) {name : String}
    (hname : name ∈ Assoc.keys fields) : ∃ record ∈ records, name ∈ Assoc.keys record.entries := by
  rw [inferFields_eq] at h
  obtain ⟨member, hmember, rfl⟩ := List.mem_map.mp (keys_mergeMembers h hname)
  obtain ⟨record, hrecord, hmember⟩ := List.mem_flatMap.mp hmember
  exact ⟨record, hrecord, List.mem_map_of_mem hmember⟩

/-- No struct of an inferred type has two fields of one name. -/
theorem namesDistinct_of_inferFields (h : inferFields records = .ok fields) :
    (Tree.struct fields).NamesDistinct := by
  rw [inferFields_eq] at h
  exact mergeMembers_distinct _ namesDistinct_nil h

end NestedRecords
