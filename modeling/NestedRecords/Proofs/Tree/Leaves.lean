import NestedRecords.Path
import NestedRecords.Tree

/-!
# The leaves of a tree

A tree of types has its scalars at the leaves, and a leaf is known by its json path: the names
on the way to it, joined by a separator, with the anonymous ones left out. `Tree.leaves` lists
the leaves depth first. It carries the names it has passed as a *scope*, the innermost one at
the head, so that going one level down is a `cons`.

`Tree.NamesDistinct` says that no struct of a tree, at any depth, has two fields of one name;
the empty name of an anonymous field counts like any other.

`joinPath_concat` is what ties a path that is built one name at a time to the path that joins
all names at once: the path built so far may itself stand for the names it was made of.
-/

namespace NestedRecords

/-! ### Paths, one name at a time -/

/-- A path is empty only if every name on it is. -/
theorem joinPath_eq_empty_iff {separator : String} {names : List String} :
    joinPath separator names = "" ↔ names.filter (· ≠ "") = [] := by
  rw [joinPath]
  refine ⟨fun h => ?_, fun h => by rw [h, String.intercalate_nil]⟩
  cases hnames : names.filter (· ≠ "") with
  | nil => rfl
  | cons first rest =>
    have hfirst : first ≠ "" := by
      have hin : first ∈ names.filter (· ≠ "") := hnames ▸ List.mem_cons_self
      simpa using (List.mem_filter.mp hin).2
    rw [hnames] at h
    cases rest with
    | nil => exact absurd (by simpa using h) hfirst
    | cons second rest =>
      rw [String.intercalate_cons_cons, String.append_assoc, String.append_eq_empty_iff] at h
      exact absurd h.1 hfirst

/-- A path with a name on it is not empty. -/
theorem joinPath_ne_empty {separator name : String} {names : List String} (h : name ∈ names)
    (hname : name ≠ "") : joinPath separator names ≠ "" := by
  intro hempty
  have hin : name ∈ names.filter (· ≠ "") := List.mem_filter.mpr ⟨h, by simpa using hname⟩
  rw [joinPath_eq_empty_iff.mp hempty] at hin
  contradiction

/-- Two names that are not empty have the separator between them. -/
theorem joinPath_pair {path name : String} (separator : String) (hpath : path ≠ "")
    (hname : name ≠ "") : joinPath separator [path, name] = path ++ separator ++ name := by
  rw [joinPath, List.filter_cons_of_pos (by simpa using hpath),
    List.filter_cons_of_pos (by simpa using hname), List.filter_nil,
    String.intercalate_cons_cons, String.intercalate_singleton]

/-- **Joining one more name.** The path along some names and one more is the path along two:
the path along the names, and the last name. -/
theorem joinPath_concat (separator : String) (names : List String) (name : String) :
    joinPath separator [joinPath separator names, name] = joinPath separator (names ++ [name]) := by
  have hlast : joinPath separator (names ++ [name]) =
      separator.intercalate (names.filter (· ≠ "") ++ [name].filter (· ≠ "")) := by
    rw [joinPath, List.filter_append]
  -- a path that is empty stands for no names at all, and any other one for itself
  by_cases hpath : joinPath separator names = ""
  · rw [hpath, joinPath_anonymous, hlast, joinPath_eq_empty_iff.mp hpath, List.nil_append, joinPath]
  · have hpair : joinPath separator [joinPath separator names, name] =
        separator.intercalate (joinPath separator names :: [name].filter (· ≠ "")) := by
      rw [joinPath, List.filter_cons_of_pos (by simpa using hpath)]
    rw [hpair, hlast]
    by_cases hname : name = ""
    · have hnone : [name].filter (· ≠ "") = [] := by simp [hname]
      rw [hnone, List.append_nil, String.intercalate_singleton, joinPath]
    · have hone : [name].filter (· ≠ "") = [name] := by simp [hname]
      have hne : names.filter (· ≠ "") ≠ [] := fun h => hpath (joinPath_eq_empty_iff.mpr h)
      rw [hone, String.intercalate_append_of_ne_nil hne (by simp), String.intercalate_cons_cons,
        joinPath]

/-- An anonymous step at the end leaves no trace either. -/
theorem joinPath_concat_anonymous (separator : String) (names : List String) :
    joinPath separator (names ++ [""]) = joinPath separator names := by
  have hnone : [""].filter (· ≠ "") = [] := by simp
  rw [joinPath, List.filter_append, hnone, List.append_nil, joinPath]

namespace Tree

/-! ### Leaves -/

mutual

/-- The leaves of a type in depth-first order, each with its json path and its datatype. The
scope holds the names on the way to the type, its own at the head; the element of a list is one
more anonymous step on that way. -/
def leaves (separator : String) (scope : List String) : Tree → List (String × Datatype)
  | scalar datatype => [(joinPath separator scope.reverse, datatype)]
  | list element => leaves separator ("" :: scope) element
  | struct fields => fieldLeaves separator scope fields

/-- The leaves of some fields, one field after the other. -/
def fieldLeaves (separator : String) (scope : List String) :
    List (String × Tree) → List (String × Datatype)
  | [] => []
  | (name, type) :: rest =>
    leaves separator (name :: scope) type ++ fieldLeaves separator scope rest

end

/-! ### Names -/

mutual

/-- No struct of the type has two fields of one name. -/
def NamesDistinct : Tree → Prop
  | scalar _ => True
  | list element => NamesDistinct element
  | struct fields => (fields.map Prod.fst).Nodup ∧ FieldNamesDistinct fields

/-- No struct in the types of some fields has two fields of one name. -/
def FieldNamesDistinct : List (String × Tree) → Prop
  | [] => True
  | (_, type) :: rest => NamesDistinct type ∧ FieldNamesDistinct rest

end

@[simp]
theorem fieldNamesDistinct_append {fields others : Fields} :
    FieldNamesDistinct (fields ++ others) ↔
      FieldNamesDistinct fields ∧ FieldNamesDistinct others := by
  induction fields with
  | nil => simp [FieldNamesDistinct]
  | cons field rest ih => simp only [List.cons_append, FieldNamesDistinct, ih, and_assoc]

end Tree

end NestedRecords
