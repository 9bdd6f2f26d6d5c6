import Mathlib.Data.List.TakeWhile
import Mathlib.Logic.Relator
import NestedRecords.Proofs.Tree.Names

/-!
# Separators that delimit

A separator is told from the names around it by a character that no name has. It may have letters in
it as well; one such character is enough. Names that are joined by such a separator can be taken
apart again (`Delimits.intercalate_inj`), also where they are empty.

So strings that are made of the same names with one separator or with another one correspond to each
other one to one. This is the relation `Rejoined`, in which the json paths and the columns of a plan
stand to those of the plan under another separator.
-/

namespace NestedRecords

/-- **Delimiting separators.** Some character of the separator is none of an identifier. -/
def Delimits (separator : String) : Prop :=
  ∃ c ∈ separator.toList, ¬(c.isAlphanum = true ∨ c = '_')

instance (separator : String) : Decidable (Delimits separator) :=
  decidable_of_iff (separator.toList.any fun c => !c.isAlphanum && c != '_') (by simp [Delimits])

/-- The characters of a name are those of identifiers. -/
theorem Spelled.forall_mem {name : String} (h : Spelled name) :
    ∀ c ∈ name.toList, c.isAlphanum = true ∨ c = '_' := by
  rcases h with rfl | h
  · exact nofun
  · exact h.2

/-- What has the separator in it is no name. -/
theorem Delimits.not_spelled {separator : String} (h : Delimits separator) (before after : String) :
    ¬Spelled (before ++ separator ++ after) := by
  obtain ⟨c, hc, hword⟩ := h
  intro hspelled
  refine hword (hspelled.forall_mem c ?_)
  simp [hc]

/-! ### Taking joined names apart -/

/-- Up to the first character that is none of an identifier, what is joined has its first name and
then the beginning of the separator. -/
private theorem takeWhile_joined {separator : String} (h : Delimits separator) {name : String}
    (hname : Spelled name) (after : String) :
    (name ++ separator ++ after).toList.takeWhile (fun c => c.isAlphanum ∨ c = '_') =
      name.toList ++ separator.toList.takeWhile (fun c => c.isAlphanum ∨ c = '_') := by
  have hwhole : (separator.toList.takeWhile fun c => c.isAlphanum ∨ c = '_').length ≠
      separator.toList.length := by
    obtain ⟨c, hc, hword⟩ := h
    intro hlength
    have hall := (List.takeWhile_prefix _).eq_of_length hlength
    exact hword (of_decide_eq_true (List.takeWhile_eq_self_iff.mp hall c hc))
  rw [String.toList_append, String.toList_append, List.append_assoc,
    List.takeWhile_append_of_pos fun c hc => decide_eq_true (hname.forall_mem c hc),
    List.takeWhile_append, if_neg hwhole]

/-- The first of two names that are joined is known from the whole. -/
private theorem eq_of_joined {separator : String} (h : Delimits separator) {name name' : String}
    (hname : Spelled name) (hname' : Spelled name') {after after' : String}
    (heq : name ++ separator ++ after = name' ++ separator ++ after') :
    name = name' ∧ after = after' := by
  have hfirst := takeWhile_joined h hname after
  rw [heq, takeWhile_joined h hname' after'] at hfirst
  obtain rfl := String.toList_inj.mp (List.append_cancel_right hfirst.symm)
  exact ⟨rfl, (String.append_right_inj _).mp heq⟩

/-- **Taking joined names apart.** A separator that delimits does not join two lists of names to one
string. -/
theorem Delimits.intercalate_inj {separator : String} (h : Delimits separator) :
    ∀ {rest rest' : List String} {name name' : String}, (∀ n ∈ name :: rest, Spelled n) →
      (∀ n ∈ name' :: rest', Spelled n) →
      separator.intercalate (name :: rest) = separator.intercalate (name' :: rest') →
      name :: rest = name' :: rest'
  | [], [], name, name', _, _, heq => by
    rw [String.intercalate_singleton, String.intercalate_singleton] at heq
    rw [heq]
  | [], second :: rest, name, name', hnames, _, heq => by
    rw [String.intercalate_singleton, String.intercalate_cons_cons] at heq
    exact absurd (heq ▸ (List.forall_mem_cons.mp hnames).1) (h.not_spelled _ _)
  | second :: rest, [], name, name', _, hnames', heq => by
    rw [String.intercalate_singleton, String.intercalate_cons_cons] at heq
    exact absurd (heq ▸ (List.forall_mem_cons.mp hnames').1) (h.not_spelled _ _)
  | second :: rest, second' :: rest', name, name', hnames, hnames', heq => by
    obtain ⟨hname, hnames⟩ := List.forall_mem_cons.mp hnames
    obtain ⟨hname', hnames'⟩ := List.forall_mem_cons.mp hnames'
    rw [String.intercalate_cons_cons, String.intercalate_cons_cons] at heq
    obtain ⟨hfirst, hrest⟩ := eq_of_joined h hname hname' heq
    have hothers : second :: rest = second' :: rest' := intercalate_inj h hnames hnames' hrest
    rw [hfirst, hothers]

/-! ### One separator for another -/

/-- **Rejoined names.** The same names, joined by one separator and by the other one. -/
def Rejoined (separator separator' joined joined' : String) : Prop :=
  ∃ name rest, (∀ n ∈ name :: rest, Spelled n) ∧ joined = separator.intercalate (name :: rest) ∧
    joined' = separator'.intercalate (name :: rest)

namespace Rejoined

variable {separator separator' joined joined' name : String} {names : List String}

/-- Under separators that delimit, rejoining goes both ways. -/
theorem biUnique (h : Delimits separator) (h' : Delimits separator') :
    Relator.BiUnique (Rejoined separator separator') := by
  constructor
  · rintro _ _ _ ⟨name, rest, hnames, rfl, rfl⟩ ⟨_, _, hnames', rfl, heq⟩
    rw [h'.intercalate_inj hnames hnames' heq]
  · rintro _ _ _ ⟨name, rest, hnames, rfl, rfl⟩ ⟨_, _, hnames', heq, rfl⟩
    rw [h.intercalate_inj hnames hnames' heq]

/-- A single name has no separator in it. -/
theorem of_spelled (h : Spelled name) : Rejoined separator separator' name name :=
  ⟨name, [], by simpa using h, by simp, by simp⟩

/-- One more name behind the others. -/
theorem concat (h : Rejoined separator separator' joined joined') (hname : Spelled name) :
    Rejoined separator separator' (joined ++ separator ++ name)
      (joined' ++ separator' ++ name) := by
  obtain ⟨first, rest, hnames, rfl, rfl⟩ := h
  have hjoin : ∀ s : String,
      s.intercalate (first :: rest) ++ s ++ name = s.intercalate (first :: (rest ++ [name])) := by
    intro s
    rw [← List.cons_append, String.intercalate_append_of_ne_nil (by simp) (by simp),
      String.intercalate_singleton]
  rw [hjoin, hjoin]
  refine ⟨first, rest ++ [name], ?_, rfl, rfl⟩
  rw [← List.cons_append]
  exact List.forall_mem_append.mpr ⟨hnames, by simpa using hname⟩

/-- Paths along the same names. -/
theorem joinPath (h : ∀ n ∈ names, Spelled n) : Rejoined separator separator'
    (joinPath separator names) (joinPath separator' names) := by
  unfold NestedRecords.joinPath
  have hfilter : ∀ n ∈ names.filter (· ≠ ""), Spelled n :=
    fun n hn => h n (List.mem_filter.mp hn).1
  cases hnames : names.filter (· ≠ "") with
  | nil => exact of_spelled (.inl rfl)
  | cons first rest => exact ⟨first, rest, hnames ▸ hfilter, rfl, rfl⟩

end Rejoined

end NestedRecords
