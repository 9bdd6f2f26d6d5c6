import Mathlib.Data.List.Permutation
import NestedRecords.Proofs.Inference.Gathering
import NestedRecords.Proofs.Tree.Reordering

/-!
# The order of records

Inferring from records gathers what they state, so the type that is inferred does not depend on
their order, up to the order of fields. Whether there is a type at all does, but in a single case
only: a list without content cannot follow a scalar or a struct, while either of these can follow
it, since such a list states nothing (`Value.refuses_cases`). Any other two values that do not go
together refuse each other.
-/

namespace NestedRecords

open NestedRecords.Tree NestedRecords.Inference

/-! ### Types that know the same -/

namespace Tree

/-- **Below each other.** Where no struct has two fields of one name, types that are below each
other only differ in the order of fields. -/
theorem Below.reordered {type other : Tree} (h : type.Below other) :
    other.Below type → type.NamesDistinct → other.NamesDistinct → type.Reordered other := by
  induction h with
  | scalar datatype => exact fun _ _ _ => .refl _
  | widen => rintro ⟨⟩
  | list _ ih =>
    rintro ⟨⟩ hnames hnames'
    rename_i hback
    exact .list (ih hback hnames hnames')
  | @struct fields others known below ih =>
    intro hback hnames hnames'
    refine .of_lookup hnames.1 hnames'.1 (fun field hfield => ?_) fun name hname => ?_
    · obtain ⟨name, type⟩ := field
      have htype := Assoc.lookup_eq_some_of_mem hnames.1 hfield
      obtain ⟨larger, hlarger⟩ := Option.isSome_iff_exists.mp (known name (by rw [htype]; rfl))
      obtain ⟨_, hagain, hbelow⟩ := below_struct_iff.mp hback name larger hlarger
      obtain rfl := Option.some.inj (htype.symm.trans hagain)
      exact ⟨larger, hlarger, ih name type larger htype hlarger hbelow
        (placeDistinct_lookup hnames.2 name type htype)
        (placeDistinct_lookup hnames'.2 name larger hlarger)⟩
    · rw [← Assoc.isSome_lookup_iff] at hname ⊢
      obtain ⟨type, htype⟩ := Option.isSome_iff_exists.mp hname
      obtain ⟨smaller, hsmaller, -⟩ := below_struct_iff.mp hback name type htype
      rw [hsmaller]
      rfl

end Tree

/-! ### Values that cannot follow each other -/

namespace Value

/-- A property of something at a place is a property of one thing that stands there. -/
theorem exists_of_at {P : Value → Prop} : ∀ {place : Place} {value : Value}, value.At P place →
    ∃ inner, P inner ∧ ∀ Q : Value → Prop, Q inner → value.At Q place
  | [], value, h => ⟨value, h, fun _ => id⟩
  | none :: place, .array items, h => by
    obtain ⟨item, hitem, h⟩ := h
    obtain ⟨inner, hinner, hback⟩ := exists_of_at h
    exact ⟨inner, hinner, fun Q hQ => ⟨item, hitem, hback Q hQ⟩⟩
  | some name :: place, .object members, h => by
    obtain ⟨member, hmember, hname, h⟩ := h
    obtain ⟨inner, hinner, hback⟩ := exists_of_at h
    exact ⟨inner, hinner, fun Q hQ => ⟨member, hmember, hname, hback Q hQ⟩⟩

/-- Lists without content. -/
def IsBare (value : Value) : Prop := value.Hollow ∧ value ≠ .null

/-- **Bare lists.** Somewhere in a value there is a list without content where another value shows
that there is no list. -/
def BareAgainst (value other : Value) : Prop :=
  ∃ place evidence, value.At IsBare place ∧ other.States (place, evidence) ∧ evidence ≠ .list

/-- A list without content cannot follow what is no list. -/
theorem IsBare.refuses {value : Value} (h : value.IsBare) {evidence : Evidence}
    (hlist : evidence ≠ .list) : value.Refuses evidence := by
  obtain ⟨hhollow, hnull⟩ := h
  cases hhollow with
  | null => contradiction
  | array => exact hlist

/-- **Refusals.** When a value cannot follow what another one shows, the other one cannot follow it
either, unless it is a list without content. -/
theorem refuses_cases {value other : Value} {evidence : Evidence} (h : value.Refuses evidence)
    (hother : other.Says evidence) :
    value.IsBare ∧ evidence ≠ .list ∨ ∃ shown, value.Says shown ∧ other.Refuses shown := by
  cases value with
  | null | bool => contradiction
  | number x =>
    refine .inr ⟨.scalar .int64, below_scalar_iff.mp (below_numberDatatype x) _ (.inl rfl), ?_⟩
    cases other with
    | null | bool => contradiction
    | number y => exact absurd (below_scalar_iff.mp (numberDatatype_below y) _ hother) h
    | string | array | object => simp [Refuses, Tree.Says]
  | string s =>
    refine .inr ⟨.scalar .utf8, .inl rfl, ?_⟩
    cases other with
    | null | bool | string => contradiction
    | number | array | object => simp [Refuses, Tree.Says]
  | array items =>
    by_cases hhollow : (array items).Hollow
    · exact .inl ⟨⟨hhollow, by simp⟩, h⟩
    refine .inr ⟨.list, ⟨hhollow, rfl⟩, ?_⟩
    cases other with
    | null | bool => contradiction
    | array others => exact absurd hother.2 h
    | number | string | object => simp [Refuses, Tree.Says]
  | object members =>
    refine .inr ⟨.struct, rfl, ?_⟩
    cases other with
    | null | bool | object => contradiction
    | number | string | array => simp [Refuses, Tree.Says]

/-- Two values that go together in one order do so in the other, unless one of them has a list
without content where the other shows none. -/
theorem not_denies_comm {value other : Value}
    (h : ∀ fact, value.States fact → ¬other.Denies fact) (hbare : ¬value.BareAgainst other)
    (fact : Place × Evidence) (hother : other.States fact) : ¬value.Denies fact := by
  intro hdenies
  obtain ⟨place, evidence⟩ := fact
  obtain ⟨inner, hrefuses, hback⟩ := exists_of_at hdenies
  obtain ⟨inner', hshows, hback'⟩ := exists_of_at hother
  rcases refuses_cases hrefuses hshows with ⟨hinner, hlist⟩ | ⟨shown, hshown, hrefused⟩
  · exact hbare ⟨place, evidence, hback _ hinner, hother, hlist⟩
  · exact h (place, shown) (hback _ hshown) (hback' _ hrefused)

end Value

/-! ### Records in any order -/

/-- What one record states another one does not deny, told of the records as objects. -/
theorem recordStates_not_denied_iff {first second : Value} :
    (∀ fact, RecordStates first fact → ¬RecordDenies second fact) ↔
      ∀ fact, (Value.object first.entries).States fact →
        ¬(Value.object second.entries).Denies fact := by
  constructor
  · rintro h ⟨_ | ⟨_ | name, place⟩, evidence⟩ hstates hdenies
    · exact hdenies hstates
    · exact hstates
    · exact h (name, place, evidence) hstates hdenies
  · exact fun h fact => h (some fact.1 :: fact.2.1, fact.2.2)

variable {records others : List Value} {fields fields' : Fields}

/-- **What the order has no say in.** Types that are inferred from the same records are the same up
to the order of fields. -/
theorem reordered_of_inferFields (hperm : records.Perm others)
    (h : inferFields records = .ok fields) (h' : inferFields others = .ok fields') :
    (struct fields).Reordered (struct fields') := by
  have hknow : ∀ fact, FieldsKnow fields fact ↔ FieldsKnow fields' fact := fun fact => by
    rw [fieldsKnow_iff h, fieldsKnow_iff h']
    exact exists_congr fun record => and_congr_left' hperm.mem_iff
  have hbelow := below_of_fieldsKnow fun fact => (hknow fact).mp
  have hback := below_of_fieldsKnow fun fact => (hknow fact).mpr
  exact hbelow.reordered hback (namesDistinct_of_inferFields h) (namesDistinct_of_inferFields h')

/-- **What the order decides.** Where there is a type for some records, there is one for all orders
of them just when no record has a list without content where another one shows that there is no
list. -/
theorem inferFields_forall_perm_iff (h : inferFields records = .ok fields) :
    (∀ others, records.Perm others → ∃ fields', inferFields others = .ok fields') ↔
      ∀ first second, [first, second].Subperm records →
        ¬(Value.object first.entries).BareAgainst (.object second.entries) := by
  obtain ⟨halone, hpairs⟩ := (Gathers.foldlM_start_ok_iff not_fieldsKnow_nil
    fun record _ => gathers_record record).mp ⟨fields, h⟩
  have hall : (∀ others, records.Perm others → ∃ fields', inferFields others = .ok fields') ↔ _ :=
    Gathers.foldlM_perm_ok_iff not_fieldsKnow_nil gathers_record
  have hswap : ∀ {first second : Value}, [first, second].Subperm records →
      [second, first].Subperm records := fun hsub => (List.Perm.swap _ _ []).subperm.trans hsub
  rw [hall]
  constructor
  · rintro ⟨-, hnone⟩ first second hsub ⟨place, evidence, hbare, hstates, hlist⟩
    obtain ⟨inner, hinner, hback⟩ := Value.exists_of_at hbare
    exact recordStates_not_denied_iff.mp (hnone second first (hswap hsub)) (place, evidence) hstates
      (hback _ (hinner.refuses hlist))
  · intro hbare
    refine ⟨halone, fun first second hsub => ?_⟩
    -- the two records are there in one order or the other
    obtain ⟨pair, hpair, hin⟩ := hsub
    rcases List.perm_pair.mp hpair with rfl | rfl
    · exact List.pairwise_iff_forall_sublist.mp hpairs hin
    · have hback := List.pairwise_iff_forall_sublist.mp hpairs hin
      exact recordStates_not_denied_iff.mpr (Value.not_denies_comm
        (recordStates_not_denied_iff.mp hback) (hbare second first hin.subperm))

/-- **Any order.** Types that are inferred from the same records in two orders are the same up to
the order of fields. If no record has a list without content where another one shows that there is
no list, there is a type for both orders or for neither. -/
theorem inferFields_perm (h : records.Perm others) :
    (∀ fields fields', inferFields records = .ok fields → inferFields others = .ok fields' →
      (struct fields).Reordered (struct fields')) ∧
    ((∀ first second, [first, second].Subperm records →
        ¬(Value.object first.entries).BareAgainst (.object second.entries)) →
      ((∃ fields, inferFields records = .ok fields) ↔
        ∃ fields', inferFields others = .ok fields')) := by
  refine ⟨fun fields fields' => reordered_of_inferFields h, fun hbare => ⟨?_, ?_⟩⟩
  · rintro ⟨fields, hfields⟩
    exact (inferFields_forall_perm_iff hfields).mpr hbare others h
  · rintro ⟨fields', hfields'⟩
    refine (inferFields_forall_perm_iff hfields').mpr (fun first second hsub => ?_) records h.symm
    exact hbare first second (hsub.trans h.symm.subperm)

/-- Two records, one of them with an empty list where the other one has a string in a list. No list
is in the way, and the types of the two orders differ in the order of their fields. -/
theorem inferFields_perm_lists :
    inferFields [.object [("a", .array []), ("b", .string "x")],
        .object [("c", .object [("d", .null)]), ("a", .array [.string "y"])]] =
      .ok [("b", .scalar .utf8), ("c", .struct []), ("a", .list (.scalar .utf8))] ∧
    (∀ first second : Value, [first, second].Subperm
        [.object [("a", .array []), ("b", .string "x")],
          .object [("c", .object [("d", .null)]), ("a", .array [.string "y"])]] →
      ¬(Value.object first.entries).BareAgainst (.object second.entries)) ∧
    (∃ fields', inferFields [.object [("c", .object [("d", .null)]), ("a", .array [.string "y"])],
        .object [("a", .array []), ("b", .string "x")]] = .ok fields') ∧
    (struct [("b", .scalar .utf8), ("c", .struct []), ("a", .list (.scalar .utf8))]).Reordered
      (struct [("c", .struct []), ("a", .list (.scalar .utf8)), ("b", .scalar .utf8)]) := by
  have hinfer : inferFields [.object [("a", .array []), ("b", .string "x")],
      .object [("c", .object [("d", .null)]), ("a", .array [.string "y"])]] =
      .ok [("b", .scalar .utf8), ("c", .struct []), ("a", .list (.scalar .utf8))] :=
    toOption_eq_some_iff.mp (by decide +kernel)
  have hinfer' : inferFields [.object [("c", .object [("d", .null)]), ("a", .array [.string "y"])],
      .object [("a", .array []), ("b", .string "x")]] =
      .ok [("c", .struct []), ("a", .list (.scalar .utf8)), ("b", .scalar .utf8)] :=
    toOption_eq_some_iff.mp (by decide +kernel)
  have hbare := (inferFields_forall_perm_iff hinfer).mp fun others hothers => by
    rcases List.pair_perm.mp hothers with rfl | rfl
    · exact ⟨_, hinfer⟩
    · exact ⟨_, hinfer'⟩
  exact ⟨hinfer, hbare, ((inferFields_perm (.swap _ _ [])).2 hbare).mp ⟨_, hinfer⟩,
    (inferFields_perm (.swap _ _ [])).1 _ _ hinfer hinfer'⟩

/-- **Lists without content.** An empty list that is seen before a string goes unnoticed, and seen
behind the same string it is a conflict. -/
theorem inferFields_perm_fails :
    [Value.object [("a", .array [])], .object [("a", .string "x")]].Perm
      [.object [("a", .string "x")], .object [("a", .array [])]] ∧
    inferFields [.object [("a", .array [])], .object [("a", .string "x")]] =
      .ok [("a", .scalar .utf8)] ∧
    inferFields [.object [("a", .string "x")], .object [("a", .array [])]] =
      .error (.conflict "a") :=
  ⟨.swap _ _ [], toOption_eq_some_iff.mp (by decide +kernel), by decide +kernel⟩

end NestedRecords
