import NestedRecords.Proofs.Schema.Grammar
import NestedRecords.Proofs.Text.Words

/-!
# Names and default columns

A name can be written down in a schema text when it is an identifier; the empty name of an anonymous
field is written by leaving it out. `Tree.FieldNamesSpelled` says that all names in some fields are
of that kind.

A leaf that gets no new name fills the column of the nearest name on the way to it. Identifiers have
no dot in them, so this name is what follows the last dot of the json path
(`lastName_joinPath`). Leaves of different default columns therefore have different paths too, which
is why the columns alone decide whether a tree without new names is a schema
(`Tree.nodup_paths`).
-/

namespace NestedRecords

/-- A name that a schema text can give to a field, or the name of a field without one. -/
def Spelled (name : String) : Prop := name = "" ∨ IsIdentifier name

instance (name : String) : Decidable (Spelled name) := inferInstanceAs (Decidable (_ ∨ _))

/-! ### The last name of a path -/

/-- What follows the last dot of a path. -/
def lastName (path : String) : String :=
  String.ofList (path.toList.reverse.takeWhile (· ≠ '.')).reverse

theorem IsIdentifier.ne_dot {name : String} (h : IsIdentifier name) :
    ∀ c ∈ name.toList, c ≠ '.' := by
  rintro c hc rfl
  exact absurd (h.2 _ hc) (by decide)

/-- A name is the last one of a path that ends in it, alone or behind a dot. -/
private theorem lastName_of_reverse {name path : String} (h : IsIdentifier name)
    (before : List Char) (hpath : path.toList.reverse = name.toList.reverse ++ before)
    (hbefore : ∀ c ∈ before.head?, c = '.') : lastName path = name := by
  have hname : ∀ c ∈ name.toList.reverse, decide (c ≠ '.') = true := fun c hc =>
    decide_eq_true (h.ne_dot c (List.mem_reverse.mp hc))
  have hstop : ∀ c ∈ before.head?, decide (c ≠ '.') = false := fun c hc =>
    decide_eq_false (not_not_intro (hbefore c hc))
  rw [lastName, hpath, takeWhile_append_eq hname hstop, List.reverse_reverse, String.ofList_toList]

/-- **The nearest name in the path.** The nearest name of a scope is the last one of its path. -/
theorem lastName_joinPath {scope : List String} (h : ∀ name ∈ scope, Spelled name) :
    lastName (joinPath "." scope.reverse) = Declared.nearestName scope := by
  induction scope with
  | nil => rfl
  | cons name scope ih =>
    obtain ⟨hname, hscope⟩ := List.forall_mem_cons.mp h
    rw [List.reverse_cons]
    rcases hname with rfl | hname
    · rw [joinPath_concat_anonymous, ih hscope]
      rfl
    · have hnearest : Declared.nearestName (name :: scope) = name := by
        simp [Declared.nearestName, hname.1]
      rw [hnearest, ← joinPath_concat]
      by_cases hpath : joinPath "." scope.reverse = ""
      · rw [hpath, joinPath_anonymous, joinPath_singleton]
        exact lastName_of_reverse hname [] (List.append_nil _).symm nofun
      · rw [joinPath_pair "." hpath hname.1]
        exact lastName_of_reverse hname ('.' :: (joinPath "." scope.reverse).toList.reverse)
          (by simp) (by simp)

namespace Tree

/-! ### Names in a tree -/

mutual

/-- Every name in the type can be written down. -/
def NamesSpelled : Tree → Prop
  | scalar _ => True
  | list element => NamesSpelled element
  | struct fields => FieldNamesSpelled fields

/-- Every name in some fields and their types can be written down. -/
def FieldNamesSpelled : List (String × Tree) → Prop
  | [] => True
  | (name, type) :: rest => Spelled name ∧ NamesSpelled type ∧ FieldNamesSpelled rest

end

theorem spelled_of_mem_map_fst {fields : Fields} (h : FieldNamesSpelled fields) :
    ∀ name ∈ fields.map Prod.fst, Spelled name := by
  induction fields with
  | nil => exact nofun
  | cons entry rest ih => exact List.forall_mem_cons.mpr ⟨h.1, ih h.2.2⟩

mutual

/-- The columns of the leaves if no new names are given: of each one the nearest name in its
scope. -/
def defaultColumns (scope : List String) : Tree → List String
  | scalar _ => [Declared.nearestName scope]
  | list element => defaultColumns ("" :: scope) element
  | struct fields => fieldDefaultColumns scope fields

/-- The default columns of some fields, one field after the other. -/
def fieldDefaultColumns (scope : List String) : List (String × Tree) → List String
  | [] => []
  | (name, type) :: rest =>
    defaultColumns (name :: scope) type ++ fieldDefaultColumns scope rest

end

mutual

/-- The default column of each leaf is the last name of its path. -/
theorem map_lastName_leaves {scope : List String} (hscope : ∀ name ∈ scope, Spelled name) :
    ∀ type : Tree, type.NamesSpelled →
      (type.leaves "." scope).map (fun leaf => lastName leaf.1) = type.defaultColumns scope
  | scalar _, _ => by
    rw [leaves, List.map_singleton, lastName_joinPath hscope, defaultColumns]
  | list element, h => by
    have hinner : ∀ name ∈ "" :: scope, Spelled name := List.forall_mem_cons.mpr ⟨.inl rfl, hscope⟩
    rw [leaves, map_lastName_leaves hinner element h, defaultColumns]
  | struct fields, h => by
    rw [leaves, map_lastName_fieldLeaves hscope fields h, defaultColumns]

/-- The default columns of the leaves of some fields are the last names of their paths. -/
theorem map_lastName_fieldLeaves {scope : List String} (hscope : ∀ name ∈ scope, Spelled name) :
    ∀ fields : List (String × Tree), FieldNamesSpelled fields →
      (fieldLeaves "." scope fields).map (fun leaf => lastName leaf.1) =
        fieldDefaultColumns scope fields
  | [], _ => rfl
  | (name, type) :: rest, ⟨hname, htype, hrest⟩ => by
    have hinner : ∀ other ∈ name :: scope, Spelled other :=
      List.forall_mem_cons.mpr ⟨hname, hscope⟩
    rw [fieldLeaves, List.map_append, map_lastName_leaves hinner type htype,
      map_lastName_fieldLeaves hscope rest hrest, fieldDefaultColumns]

end

/-- Leaves whose default columns differ have different paths. -/
theorem nodup_paths {fields : Fields} (hspelled : FieldNamesSpelled fields)
    (hcolumns : (fieldDefaultColumns [] fields).Nodup) :
    ((fieldLeaves "." [] fields).map Prod.fst).Nodup := by
  rw [← map_lastName_fieldLeaves (List.forall_mem_nil _) fields hspelled] at hcolumns
  exact List.Pairwise.map Prod.fst (fun _ _ hne heq => hne (congrArg lastName heq))
    (List.Pairwise.of_map (fun leaf => lastName leaf.1) (fun _ _ => id) hcolumns)

end Tree

end NestedRecords
