import NestedRecords.Tree

/-!
# Types that know more

One type is below another when the other one holds on to everything it says, and may say more. An
`int64` may have become a `float64`; a list is compared by its element; a struct may have more
fields, and each of its fields has to be there under the same name with a larger type.

A place in a record need not have a type yet. No type is below every type (`Tree.PlaceBelow`), and
then structs are compared place by place (`Tree.below_struct_iff`).
-/

namespace NestedRecords

namespace Tree

/-- **Below a type.** What the first type says the second one says too. -/
inductive Below : Tree → Tree → Prop
  | scalar (datatype : Datatype) : Below (.scalar datatype) (.scalar datatype)
  | widen : Below (.scalar .int64) (.scalar .float64)
  | list {element larger : Tree} (h : Below element larger) : Below (.list element) (.list larger)
  | struct {fields others : List (String × Tree)}
    (known : ∀ name, (fields.lookup name).isSome → (others.lookup name).isSome)
    (below : ∀ name type larger, fields.lookup name = some type →
      others.lookup name = some larger → Below type larger) :
    Below (.struct fields) (.struct others)

/-- What is known of a place, and what is known of it with more evidence. -/
def PlaceBelow (seen later : Option Tree) : Prop :=
  ∀ type, seen = some type → ∃ larger, later = some larger ∧ type.Below larger

theorem PlaceBelow.none (later : Option Tree) : PlaceBelow none later := nofun

theorem placeBelow_some_iff {type : Tree} {later : Option Tree} :
    PlaceBelow (some type) later ↔ ∃ larger, later = some larger ∧ type.Below larger :=
  ⟨fun h => h type rfl, fun h _ heq => Option.some.inj heq ▸ h⟩

/-- Structs are compared place by place. -/
theorem below_struct_iff {fields others : Fields} :
    (struct fields).Below (struct others) ↔
      ∀ name, PlaceBelow (fields.lookup name) (others.lookup name) := by
  constructor
  · rintro ⟨⟩ name type htype
    rename_i known below
    obtain ⟨larger, hlarger⟩ := Option.isSome_iff_exists.mp (known name (by rw [htype]; rfl))
    exact ⟨larger, hlarger, below name type larger htype hlarger⟩
  · intro h
    refine .struct (fun name hname => ?_) fun name type larger htype hlarger => ?_
    · obtain ⟨type, htype⟩ := Option.isSome_iff_exists.mp hname
      obtain ⟨larger, hlarger, -⟩ := h name type htype
      rw [hlarger]
      rfl
    · obtain ⟨_, hother, hbelow⟩ := h name type htype
      obtain rfl := Option.some.inj (hlarger.symm.trans hother)
      exact hbelow

mutual

@[refl]
theorem Below.refl : ∀ type : Tree, type.Below type
  | .scalar datatype => .scalar datatype
  | .list element => .list (Below.refl element)
  | .struct fields => .struct (fun _ h => h) fun name type larger htype hlarger => by
    obtain rfl := Option.some.inj (htype.symm.trans hlarger)
    exact Below.refl_of_lookup fields htype

private theorem Below.refl_of_lookup : ∀ (fields : List (String × Tree)) {name : String}
    {type : Tree}, fields.lookup name = some type → type.Below type
  | (first, type) :: rest, name, _, h => by
    rw [List.lookup_cons] at h
    split at h
    · obtain rfl := Option.some.inj h
      exact Below.refl type
    · exact Below.refl_of_lookup rest h

end

theorem PlaceBelow.refl (seen : Option Tree) : PlaceBelow seen seen :=
  fun type h => ⟨type, h, .refl type⟩

theorem Below.trans {type larger largest : Tree} (h : type.Below larger)
    (hlarger : larger.Below largest) : type.Below largest := by
  induction h generalizing largest with
  | scalar datatype => exact hlarger
  | widen =>
    cases hlarger
    exact .widen
  | list _ ih =>
    cases hlarger with
    | list h => exact .list (ih h)
  | struct known below ih =>
    cases hlarger with
    | struct known' below' =>
      refine .struct (fun name hname => known' name (known name hname)) ?_
      intro name first last hfirst hlast
      obtain ⟨middle, hmiddle⟩ :=
        Option.isSome_iff_exists.mp (known name (by rw [hfirst]; rfl))
      exact ih name first middle hfirst hmiddle (below' name middle last hmiddle hlast)

theorem PlaceBelow.trans {seen later last : Option Tree} (h : PlaceBelow seen later)
    (hlater : PlaceBelow later last) : PlaceBelow seen last := by
  intro type htype
  obtain ⟨larger, hlarger, hbelow⟩ := h type htype
  obtain ⟨largest, hlargest, hbelow'⟩ := hlater larger hlarger
  exact ⟨largest, hlargest, hbelow.trans hbelow'⟩

end Tree

end NestedRecords
