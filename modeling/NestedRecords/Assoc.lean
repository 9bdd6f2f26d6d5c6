/-!
# Ordered maps

A map that keeps its keys in the order in which they were first set is a list of pairs; a key is
looked up with `List.lookup`. Setting a key again changes its value and not its place. The small
lemmas say what `insert` does to the keys and to a look-up.
-/

namespace NestedRecords

namespace Assoc

variable {β : Type}

/-- Sets the value of a key: in place if the key is there, else at the end. -/
def insert (key : String) (value : β) : List (String × β) → List (String × β)
  | [] => [(key, value)]
  | (k, v) :: rest => if k = key then (k, value) :: rest else (k, v) :: insert key value rest

/-- The map in which each pair was set in turn. -/
def ofList (pairs : List (String × β)) : List (String × β) :=
  pairs.foldl (fun map pair => insert pair.1 pair.2 map) []

/-- The keys of a map. -/
def keys (map : List (String × β)) : List String := map.map Prod.fst

/-! ### What setting a key does -/

theorem keys_insert (key : String) (value : β) (map : List (String × β)) :
    keys (insert key value map) = if key ∈ keys map then keys map else keys map ++ [key] := by
  induction map with
  | nil => simp [insert, keys]
  | cons pair rest ih =>
    by_cases hk : pair.1 = key
    · simp [insert, keys, hk]
    · have hk' : ¬ key = pair.1 := fun h => hk h.symm
      simp only [keys] at ih
      simp only [insert, hk, if_false, keys, List.map_cons, List.mem_cons, hk', false_or, ih]
      split <;> simp_all

theorem nodup_keys_insert (key : String) (value : β) {map : List (String × β)}
    (h : (keys map).Nodup) : (keys (insert key value map)).Nodup := by
  rw [keys_insert]
  split
  · exact h
  · rename_i hne
    rw [List.nodup_append]
    exact ⟨h, by simp, fun a ha b hb => by
      obtain rfl := List.mem_singleton.1 hb
      exact fun hab => hne (hab ▸ ha)⟩

theorem lookup_insert (key : String) (value : β) (map : List (String × β)) (k : String) :
    (insert key value map).lookup k = if k = key then some value else map.lookup k := by
  induction map with
  | nil =>
    by_cases h : k = key
    · simp [insert, h]
    · simp [insert, h, List.lookup_cons, beq_false_of_ne h]
  | cons pair rest ih =>
    obtain ⟨k', v⟩ := pair
    by_cases hk : k' = key
    · by_cases h : k = key
      · simp [insert, hk, h]
      · simp [insert, hk, h, List.lookup_cons, beq_false_of_ne h]
    · simp only [insert, hk, if_false, List.lookup_cons, ih]
      by_cases h : k = key
      · simp [h, beq_false_of_ne fun heq => hk (Eq.symm heq)]
      · simp [h]

end Assoc

end NestedRecords
