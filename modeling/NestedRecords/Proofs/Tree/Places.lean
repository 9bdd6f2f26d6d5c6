import NestedRecords.Proofs.Tree.Order

/-!
# Places in a type

A type can be told by what it says of single places. A place is reached by taking members by their
name and items of lists, and there is a scalar, a list or a struct there. As `float64` is what
becomes of `int64`, a place with the one is also said to have the other (`Tree.Says`).

A type that says less is below (`Tree.below_of_knows`). So two types that say the same are below
each other.
-/

namespace NestedRecords

/-- What can be said of a place. -/
inductive Evidence
  | scalar (datatype : Datatype)
  | list
  | struct
  deriving DecidableEq, Repr

/-- The way to a place: the name of a member, or any item of a list, at every step. -/
abbrev Place := List (Option String)

namespace Tree

/-- What a type says of the place that it stands at. -/
def Says : Tree → Evidence → Prop
  | scalar datatype, evidence =>
    evidence = .scalar datatype ∨ datatype = .float64 ∧ evidence = .scalar .int64
  | list _, evidence => evidence = .list
  | struct _, evidence => evidence = .struct

/-- What is known of a place says something of the places behind it. -/
def KnowsAt : Option Tree → Place → Evidence → Prop
  | none, _, _ => False
  | some type, [], evidence => type.Says evidence
  | some (list element), none :: place, evidence => KnowsAt (some element) place evidence
  | some (struct fields), some name :: place, evidence =>
    KnowsAt (fields.lookup name) place evidence
  | some _, _ :: _, _ => False

/-- **Knowledge.** The facts, each of them about a place, that are known. -/
def Knows (seen : Option Tree) (fact : Place × Evidence) : Prop := KnowsAt seen fact.1 fact.2

theorem not_knows_none (fact : Place × Evidence) : ¬Knows none fact := by
  simp [Knows, KnowsAt]

theorem knows_scalar_iff {datatype : Datatype} {fact : Place × Evidence} :
    Knows (some (scalar datatype)) fact ↔ fact.1 = [] ∧ (scalar datatype).Says fact.2 := by
  obtain ⟨place, evidence⟩ := fact
  match place with
  | [] => exact (and_iff_right rfl).symm
  | none :: _ => exact iff_of_false id (fun h => List.cons_ne_nil _ _ h.1)
  | some _ :: _ => exact iff_of_false id (fun h => List.cons_ne_nil _ _ h.1)

/-- Every type says something. -/
theorem exists_says (type : Tree) : ∃ evidence, type.Says evidence := by
  cases type with
  | scalar datatype => exact ⟨_, .inl rfl⟩
  | list element => exact ⟨_, rfl⟩
  | struct fields => exact ⟨_, rfl⟩

/-- A scalar that says less is below. -/
theorem below_of_scalar_says {datatype : Datatype} {larger : Tree}
    (h : larger.Says (.scalar datatype)) : (scalar datatype).Below larger := by
  cases larger with
  | scalar other =>
    rcases h with h | ⟨rfl, h⟩
    · obtain rfl := Evidence.scalar.inj h
      exact .scalar datatype
    · obtain rfl := Evidence.scalar.inj h
      exact .widen
  | list element => contradiction
  | struct fields => contradiction

mutual

/-- **Knowing less is being below.** A type is below another one when that one knows all that it
knows. -/
theorem below_of_knows : ∀ (type : Tree) {larger : Tree},
    (∀ fact, Knows (some type) fact → Knows (some larger) fact) → type.Below larger
  | .scalar datatype, larger, h => below_of_scalar_says (h ([], .scalar datatype) (.inl rfl))
  | .list element, larger, h => by
    have hlist : larger.Says .list := h ([], .list) rfl
    cases larger with
    | scalar datatype => rcases hlist with h | ⟨-, h⟩ <;> contradiction
    | list other =>
      exact .list (below_of_knows element fun fact => h (none :: fact.1, fact.2))
    | struct fields => contradiction
  | .struct fields, larger, h => by
    have hstruct : larger.Says .struct := h ([], .struct) rfl
    cases larger with
    | scalar datatype => rcases hstruct with h | ⟨-, h⟩ <;> contradiction
    | list element => contradiction
    | struct others =>
      exact below_struct_iff.mpr fun name =>
        placeBelow_of_knows fields name fun fact => h (some name :: fact.1, fact.2)

/-- What is known of a field may be less than what another struct knows of it. -/
theorem placeBelow_of_knows : ∀ (fields : List (String × Tree)) (name : String)
    {later : Option Tree}, (∀ fact, Knows (fields.lookup name) fact → Knows later fact) →
      PlaceBelow (fields.lookup name) later
  | [], _, later, _ => .none later
  | (first, type) :: rest, name, later, h => by
    rw [List.lookup_cons] at h ⊢
    split
    · rename_i heq
      rw [heq] at h
      cases later with
      | none =>
        obtain ⟨evidence, hshows⟩ := exists_says type
        exact (h ([], evidence) hshows).elim
      | some larger => exact placeBelow_some_iff.mpr ⟨larger, rfl, below_of_knows type h⟩
    · rename_i heq
      rw [heq] at h
      exact placeBelow_of_knows rest name h

end

/-- **Being below is knowing less.** -/
theorem Below.knows {type larger : Tree} (h : type.Below larger) :
    ∀ fact, Knows (some type) fact → Knows (some larger) fact := by
  induction h with
  | scalar datatype => exact fun _ => id
  | widen =>
    intro fact hknown
    obtain ⟨hplace, h | ⟨h, -⟩⟩ := knows_scalar_iff.mp hknown
    · exact knows_scalar_iff.mpr ⟨hplace, .inr ⟨rfl, h⟩⟩
    · contradiction
  | list _ ih =>
    rintro ⟨_ | ⟨_ | name, place⟩, evidence⟩ hknown
    · exact hknown
    · exact ih (place, evidence) hknown
    · contradiction
  | @struct fields others known _ ih =>
    rintro ⟨_ | ⟨_ | name, place⟩, evidence⟩ hknown
    · exact hknown
    · contradiction
    · change Knows (fields.lookup name) (place, evidence) at hknown
      change Knows (others.lookup name) (place, evidence)
      cases htype : fields.lookup name with
      | none => exact absurd (htype ▸ hknown) (not_knows_none _)
      | some type =>
        obtain ⟨larger, hlarger⟩ := Option.isSome_iff_exists.mp (known name (by rw [htype]; rfl))
        rw [hlarger]
        exact ih name type larger htype hlarger _ (htype ▸ hknown)

theorem PlaceBelow.knows {seen later : Option Tree} (h : PlaceBelow seen later)
    (fact : Place × Evidence) (hknown : Knows seen fact) : Knows later fact := by
  cases seen with
  | none => exact absurd hknown (not_knows_none fact)
  | some type =>
    obtain ⟨larger, rfl, hbelow⟩ := placeBelow_some_iff.mp h
    exact hbelow.knows fact hknown

/-- Scalars are compared by what they say. -/
theorem below_scalar_iff {type : Tree} {datatype : Datatype} :
    type.Below (scalar datatype) ↔
      ∀ evidence, type.Says evidence → (scalar datatype).Says evidence := by
  constructor
  · rintro (_ | _) evidence hshows
    · exact hshows
    · rcases hshows with h | ⟨h, -⟩
      · exact .inr ⟨rfl, h⟩
      · contradiction
  · intro h
    cases type with
    | scalar other => exact below_of_scalar_says (h _ (.inl rfl))
    | list element => rcases h .list rfl with h | ⟨-, h⟩ <;> contradiction
    | struct fields => rcases h .struct rfl with h | ⟨-, h⟩ <;> contradiction

/-- There is not much below a scalar. -/
theorem placeBelow_scalar_iff_eq {seen : Option Tree} {datatype : Datatype} :
    PlaceBelow seen (some (scalar datatype)) ↔ seen = none ∨ seen = some (scalar datatype) ∨
      datatype = .float64 ∧ seen = some (scalar .int64) := by
  constructor
  · intro h
    cases seen with
    | none => exact .inl rfl
    | some type =>
      obtain ⟨_, ⟨⟩, hbelow⟩ := placeBelow_some_iff.mp h
      cases hbelow with
      | scalar => exact .inr (.inl rfl)
      | widen => exact .inr (.inr ⟨rfl, rfl⟩)
  · rintro (rfl | rfl | ⟨rfl, rfl⟩)
    · exact .none _
    · exact .refl _
    · exact placeBelow_some_iff.mpr ⟨_, rfl, .widen⟩

theorem placeBelow_scalar_iff {seen : Option Tree} {datatype : Datatype} :
    PlaceBelow seen (some (scalar datatype)) ↔
      ∀ evidence, Knows seen ([], evidence) → (scalar datatype).Says evidence := by
  cases seen with
  | none => exact iff_of_true (.none _) fun evidence h => absurd h (not_knows_none _)
  | some type =>
    rw [placeBelow_some_iff]
    refine Iff.trans ⟨?_, fun h => ⟨_, rfl, h⟩⟩ below_scalar_iff
    rintro ⟨_, ⟨⟩, h⟩
    exact h

end Tree

end NestedRecords
