import Mathlib.Data.List.Forall2
import Mathlib.Data.List.Nodup
import NestedRecords.Proofs.Assoc
import NestedRecords.Tree

/-!
# Types up to the order of fields

The fields of a struct have an order, which is that of the text they were declared in or that of
the records they were inferred from. Types are *reordered* into each other when nothing else tells
them apart, neither at their root nor anywhere below it.

The rules take one step at a time, and a step below the root stands at the head of the list or at
the first field of the struct. That is enough, since fields can be brought to the front and put back
(`Tree.Reordered.fields`, `Tree.Reordered.of_lookup`).
-/

namespace NestedRecords

namespace Tree

/-- **Reordering.** Types that differ in the order of the fields of their structs alone, at any
depth. -/
inductive Reordered : Tree → Tree → Prop
  | refl (type : Tree) : Reordered type type
  | trans {first second third : Tree} (h : Reordered first second)
    (h' : Reordered second third) : Reordered first third
  | list {element other : Tree} (h : Reordered element other) :
    Reordered (.list element) (.list other)
  | field {type other : Tree} (h : Reordered type other) (name : String)
    (rest : List (String × Tree)) :
    Reordered (.struct ((name, type) :: rest)) (.struct ((name, other) :: rest))
  | perm {fields others : List (String × Tree)} (h : fields.Perm others) :
    Reordered (.struct fields) (.struct others)

/-- A field in the middle of a struct can be reordered. -/
theorem Reordered.middle {type other : Tree} (h : type.Reordered other) (front : Fields)
    (name : String) (back : Fields) :
    (struct (front ++ (name, type) :: back)).Reordered
      (struct (front ++ (name, other) :: back)) :=
  (Reordered.perm List.perm_middle).trans
    ((h.field name (front ++ back)).trans (Reordered.perm List.perm_middle.symm))

/-- Fields of the same names can all be reordered in their places. -/
theorem Reordered.fields {fields others : Fields}
    (h : List.Forall₂ (fun field other => field.1 = other.1 ∧ field.2.Reordered other.2)
      fields others) : (struct fields).Reordered (struct others) := by
  have hbehind : ∀ front : Fields,
      (struct (front ++ fields)).Reordered (struct (front ++ others)) := by
    induction h with
    | nil => exact fun front => .refl _
    | @cons field other rest rest' hfield _ ih =>
      obtain ⟨name, type⟩ := field
      obtain ⟨_, type'⟩ := other
      obtain ⟨rfl, htype⟩ := hfield
      intro front
      have hrest := ih (front ++ [(name, type')])
      rw [List.append_assoc, List.append_assoc] at hrest
      exact (htype.middle front name rest).trans hrest
  exact hbehind []

/-- Structs are reordered when the fields of each name are. -/
theorem Reordered.of_lookup {fields others : Fields} (hnames : (fields.map Prod.fst).Nodup)
    (hnames' : (others.map Prod.fst).Nodup)
    (h : ∀ field ∈ fields, ∃ type, others.lookup field.1 = some type ∧ field.2.Reordered type)
    (hkeys : Assoc.keys others ⊆ Assoc.keys fields) :
    (struct fields).Reordered (struct others) := by
  -- each field is reordered in its place, and then they all change places
  let moved : Fields := fields.map fun field => (field.1, (others.lookup field.1).getD field.2)
  have hmoved : List.Forall₂ (fun field other => field.1 = other.1 ∧ field.2.Reordered other.2)
      fields moved := by
    refine List.forall₂_map_right_iff.mpr (List.forall₂_same.mpr fun field hfield => ⟨rfl, ?_⟩)
    obtain ⟨type, htype, hreordered⟩ := h field hfield
    rwa [htype, Option.getD_some]
  have hmovedNames : moved.map Prod.fst = fields.map Prod.fst := by
    rw [List.map_map]
    rfl
  have hnodup : moved.Nodup := .of_map Prod.fst (hmovedNames ▸ hnames)
  have hperm : moved.Perm others := by
    refine (List.perm_ext_iff_of_nodup hnodup (.of_map Prod.fst hnames')).mpr fun other => ?_
    constructor
    · intro hmem
      obtain ⟨field, hfield, rfl⟩ := List.mem_map.mp hmem
      obtain ⟨type, htype, -⟩ := h field hfield
      rw [htype]
      exact Assoc.mem_of_lookup_eq_some htype
    · intro hmem
      obtain ⟨field, hfield, hname⟩ := List.mem_map.mp (hkeys (List.mem_map_of_mem hmem))
      refine List.mem_map.mpr ⟨field, hfield, ?_⟩
      rw [hname, Assoc.lookup_eq_some_of_mem hnames' hmem, Option.getD_some]
  exact (Reordered.fields hmoved).trans (.perm hperm)

end Tree

end NestedRecords
