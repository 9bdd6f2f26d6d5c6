import NestedRecords.Datatype

/-!
# Trees of nested types

The type of a record is a tree: scalars at the leaves, lists of one element type, and structs of
named fields. A field with the empty name is anonymous. The fields of a whole record are kept as
a plain list, since a schema text may also describe records that are no objects.
-/

namespace NestedRecords

/-- A type of nested data. -/
inductive Tree
  | scalar (datatype : Datatype)
  | list (element : Tree)
  | struct (fields : List (String × Tree))
  deriving Repr

/-- Named types in the order in which they were declared. -/
abbrev Fields := List (String × Tree)

namespace Tree

/-! ### Equality -/

mutual

/-- Trees are equal when they have the same shape, names and datatypes. -/
def decEq : (s t : Tree) → Decidable (s = t)
  | scalar d, scalar e => decidable_of_iff (d = e) (by rw [scalar.injEq])
  | list s, list t =>
    match decEq s t with
    | isTrue h => isTrue (h ▸ rfl)
    | isFalse h => isFalse fun heq => h (list.inj heq)
  | struct fs, struct gs =>
    match decEqFields fs gs with
    | isTrue h => isTrue (h ▸ rfl)
    | isFalse h => isFalse fun heq => h (struct.inj heq)
  | scalar _, list _ => isFalse nofun
  | scalar _, struct _ => isFalse nofun
  | list _, scalar _ => isFalse nofun
  | list _, struct _ => isFalse nofun
  | struct _, scalar _ => isFalse nofun
  | struct _, list _ => isFalse nofun

/-- Equality of field lists, name by name and type by type. -/
def decEqFields : (fs gs : List (String × Tree)) → Decidable (fs = gs)
  | [], [] => isTrue rfl
  | [], _ :: _ => isFalse nofun
  | _ :: _, [] => isFalse nofun
  | (m, s) :: fs, (n, t) :: gs =>
    match decEq s t, decEqFields fs gs with
    | isTrue hs, isTrue hf =>
      decidable_of_iff (m = n) ⟨fun hn => by rw [hn, hs, hf], fun heq => by simp_all⟩
    | isFalse h, _ => isFalse fun heq => by simp_all
    | _, isFalse h => isFalse fun heq => by simp_all

end

instance : DecidableEq Tree := decEq

end Tree

end NestedRecords
