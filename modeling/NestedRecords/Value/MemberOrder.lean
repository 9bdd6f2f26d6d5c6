/-!
# The order of members

The members of a record are listed with those first whose names are indexes, by number, and the
others behind them as they come. An index is written in decimal without a sign or a leading
zero, and lies below 2^32 - 1.

`arrangeBy_perm` says that nothing is lost or doubled on the way.
-/

namespace NestedRecords

namespace MemberOrder

/-- The value of some decimal digits. -/
def digitsValue (ds : List Char) : Nat := ds.foldl (fun n d => 10 * n + (d.toNat - '0'.toNat)) 0

/-- The number that a name spells, if it is an index. -/
def index? (name : String) : Option Nat :=
  let ds := name.toList
  if ds ≠ [] ∧ ds.all Char.isDigit ∧ (ds.head? = some '0' → ds = ['0']) ∧
      digitsValue ds < Nat.pow 2 32 - 1 then
    some (digitsValue ds)
  else none

/-- Puts a numbered entry in front of the first one with a number at least as great. -/
def place {α : Type} (entry : Nat × α) : List (Nat × α) → List (Nat × α)
  | [] => [entry]
  | e :: rest => if entry.1 ≤ e.1 then entry :: e :: rest else e :: place entry rest

/-- Numbered entries by number. -/
def sort {α : Type} (entries : List (Nat × α)) : List (Nat × α) := entries.foldr place []

/-- The entries whose names are indexes, by number, and then the others as they come. -/
def arrangeBy {α : Type} (name : α → String) (entries : List α) : List α :=
  let indexed := entries.filterMap fun entry => (index? (name entry)).map (·, entry)
  (sort indexed).map Prod.snd ++ entries.filter fun entry => (index? (name entry)).isNone

/-! ### Nothing is lost -/

theorem place_perm {α : Type} (entry : Nat × α) (entries : List (Nat × α)) :
    (place entry entries).Perm (entry :: entries) := by
  induction entries with
  | nil => exact List.Perm.refl _
  | cons e rest ih =>
    unfold place
    split
    · exact List.Perm.refl _
    · exact (ih.cons e).trans (List.Perm.swap entry e rest)

theorem sort_perm {α : Type} (entries : List (Nat × α)) : (sort entries).Perm entries := by
  induction entries with
  | nil => exact List.Perm.refl _
  | cons e rest ih => exact (place_perm e (sort rest)).trans (ih.cons e)

private theorem filterMap_append_filter_perm {α : Type} (name : α → String) (entries : List α) :
    ((entries.filterMap fun entry => (index? (name entry)).map (·, entry)).map Prod.snd ++
      entries.filter fun entry => (index? (name entry)).isNone).Perm entries := by
  induction entries with
  | nil => exact List.Perm.refl _
  | cons entry rest ih =>
    cases h : index? (name entry) with
    | some n => simpa [h] using ih
    | none =>
      simp only [List.filterMap_cons, h, Option.map_none, List.filter_cons, Option.isNone_none,
        if_true]
      exact List.perm_middle.trans (ih.cons entry)

/-- Arranging some entries changes nothing but their order. -/
theorem arrangeBy_perm {α : Type} (name : α → String) (entries : List α) :
    (arrangeBy name entries).Perm entries :=
  (((sort_perm _).map Prod.snd).append_right _).trans (filterMap_append_filter_perm name entries)

example : arrangeBy id ["b", "10", "01", "2", "", "4294967294", "4294967295"] =
    ["2", "10", "4294967294", "b", "01", "", "4294967295"] := by decide +kernel

end MemberOrder

end NestedRecords
