import Mathlib.Data.List.Induction
import NestedRecords.Assoc

/-!
# Looking keys up

Where the keys of a list of pairs are distinct, every pair of it is found by its key, so that
looking all keys up gives the values in their order.
-/

namespace NestedRecords

namespace Assoc

variable {β : Type}

/-- Where no key comes twice, a key is found with its value. -/
theorem lookup_eq_some_of_mem {map : List (String × β)} (h : (map.map Prod.fst).Nodup)
    {key : String} {value : β} (hmem : (key, value) ∈ map) : map.lookup key = some value := by
  induction map with
  | nil => contradiction
  | cons pair rest ih =>
    obtain ⟨k, v⟩ := pair
    obtain ⟨hkey, hrest⟩ := List.nodup_cons.mp h
    rcases List.mem_cons.mp hmem with heq | hmem
    · obtain ⟨rfl, rfl⟩ := Prod.mk.inj heq
      rw [List.lookup_cons, beq_self_eq_true]
    · have hin : key ∈ rest.map Prod.fst := List.mem_map_of_mem hmem
      have hne : (key == k) = false := beq_false_of_ne fun heq => hkey (heq ▸ hin)
      rw [List.lookup_cons, hne]
      exact ih hrest hmem

/-- What is found is there. -/
theorem mem_of_lookup_eq_some {map : List (String × β)} {key : String} {value : β}
    (h : map.lookup key = some value) : (key, value) ∈ map := by
  obtain ⟨front, back, rfl, -⟩ := List.lookup_eq_some_iff.mp h
  exact List.mem_append_right front List.mem_cons_self

theorem lookup_eq_some_iff {map : List (String × β)} (h : (map.map Prod.fst).Nodup) {key : String}
    {value : β} : map.lookup key = some value ↔ (key, value) ∈ map :=
  ⟨mem_of_lookup_eq_some, lookup_eq_some_of_mem h⟩

/-- Where no key comes twice, the order of the pairs has no say in what is found. -/
theorem lookup_eq_of_perm {map other : List (String × β)} (hkeys : (map.map Prod.fst).Nodup)
    (h : map.Perm other) (key : String) : map.lookup key = other.lookup key := by
  have hkeys' : (other.map Prod.fst).Nodup := (h.map Prod.fst).nodup_iff.mp hkeys
  refine Option.ext fun value => ?_
  rw [lookup_eq_some_iff hkeys, lookup_eq_some_iff hkeys', h.mem_iff]

/-- Setting a key adds that key. -/
theorem mem_keys_insert_iff {map : List (String × β)} {key name : String} {value : β} :
    name ∈ keys (insert key value map) ↔ name = key ∨ name ∈ keys map := by
  rw [keys_insert]
  split
  · rename_i hmem
    exact ⟨.inr, fun h => h.elim (fun heq => heq ▸ hmem) id⟩
  · rw [List.mem_append, List.mem_singleton, or_comm]

/-- A key is set behind the pairs that have other keys. -/
theorem insert_append {front : List (String × β)} {key : String} (h : key ∉ keys front)
    (value : β) (back : List (String × β)) :
    insert key value (front ++ back) = front ++ insert key value back := by
  induction front with
  | nil => rfl
  | cons pair rest ih =>
    obtain ⟨hpair, hrest⟩ := not_or.mp (mt List.mem_cons.mpr h)
    rw [List.cons_append, insert, if_neg (Ne.symm hpair), ih hrest, List.cons_append]

/-- Two keys can be set in either order. -/
theorem lookup_insert_comm {map : List (String × β)} {key key' : String} (h : key ≠ key')
    (value value' : β) (k : String) :
    (insert key' value' (insert key value map)).lookup k =
      (insert key value (insert key' value' map)).lookup k := by
  simp only [lookup_insert]
  grind

/-- Keys are what something is found by. -/
theorem isSome_lookup_iff {map : List (String × β)} {key : String} :
    (map.lookup key).isSome ↔ key ∈ keys map := by
  rw [Option.isSome_iff_ne_none, ne_eq, List.lookup_eq_none_iff]
  simp [keys]

theorem lookup_eq_none_iff {map : List (String × β)} {key : String} :
    map.lookup key = none ↔ key ∉ keys map := by
  rw [← isSome_lookup_iff, Bool.not_eq_true, Option.isSome_eq_false_iff, Option.isNone_iff_eq_none]

/-! ### New keys -/

theorem keys_rename (g : String → String) (map : List (String × β)) :
    keys (map.map fun pair => (g pair.1, pair.2)) = (keys map).map g := by
  rw [keys, keys, List.map_map, List.map_map]
  rfl

/-- Pairs are found under new keys where no other key becomes the same. -/
theorem lookup_map_of_unique {map : List (String × β)} {g : String → String} {key : String}
    (h : ∀ k ∈ keys map, g k = g key → k = key) :
    (map.map fun pair => (g pair.1, pair.2)).lookup (g key) = map.lookup key := by
  induction map with
  | nil => rfl
  | cons pair rest ih =>
    obtain ⟨hpair, hrest⟩ := List.forall_mem_cons.mp h
    rw [List.map_cons, List.lookup_cons, List.lookup_cons]
    by_cases heq : key = pair.1
    · rw [heq, beq_self_eq_true, beq_self_eq_true]
    · rw [beq_false_of_ne heq, beq_false_of_ne fun hg => heq (hpair hg.symm).symm]
      exact ih hrest

/-! ### Setting pairs in turn -/

theorem ofList_concat (pairs : List (String × β)) (pair : String × β) :
    ofList (pairs ++ [pair]) = insert pair.1 pair.2 (ofList pairs) := by
  rw [ofList, List.foldl_append]
  rfl

theorem nodup_keys_ofList (pairs : List (String × β)) : (keys (ofList pairs)).Nodup := by
  induction pairs using List.reverseRecOn with
  | nil => exact List.nodup_nil
  | append_singleton pairs pair ih =>
    rw [ofList_concat]
    exact nodup_keys_insert pair.1 pair.2 ih

/-- Of the pairs with one key, the last one counts. -/
theorem lookup_ofList (pairs : List (String × β)) (key : String) :
    (ofList pairs).lookup key = pairs.reverse.lookup key := by
  induction pairs using List.reverseRecOn with
  | nil => rfl
  | append_singleton pairs pair ih =>
    rw [ofList_concat, lookup_insert, List.reverse_append, List.reverse_singleton,
      List.singleton_append, List.lookup_cons, ← ih]
    by_cases heq : key = pair.1
    · rw [if_pos heq, heq, beq_self_eq_true]
    · rw [if_neg heq, beq_false_of_ne heq]

/-- Pairs with distinct keys make up the same map when they are set in turn. -/
theorem lookup_ofList_of_nodup {pairs : List (String × β)} (h : (keys pairs).Nodup) (key : String) :
    (ofList pairs).lookup key = pairs.lookup key := by
  rw [lookup_ofList]
  exact (lookup_eq_of_perm h (List.reverse_perm pairs).symm key).symm

theorem mem_keys_ofList_iff {pairs : List (String × β)} {key : String} :
    key ∈ keys (ofList pairs) ↔ key ∈ keys pairs := by
  rw [← isSome_lookup_iff, lookup_ofList, isSome_lookup_iff, keys, keys, List.map_reverse,
    List.mem_reverse]

/-- A map keeps its pairs under new keys where no other key becomes the same. -/
theorem lookup_ofList_map {map : List (String × β)} (hkeys : (keys map).Nodup)
    {g : String → String} {key : String} (h : ∀ k ∈ keys map, g k = g key → k = key) :
    (ofList (map.map fun pair => (g pair.1, pair.2))).lookup (g key) = map.lookup key := by
  have hreversed : ∀ k ∈ keys map.reverse, g k = g key → k = key := by
    rw [keys, List.map_reverse]
    exact fun k hk => h k (List.mem_reverse.mp hk)
  rw [lookup_ofList, ← List.map_reverse, lookup_map_of_unique hreversed, ← lookup_ofList,
    lookup_ofList_of_nodup hkeys]

/-! ### All keys -/

/-- Looking up all keys gives all values. -/
theorem map_lookup_keys {map : List (String × β)} (h : (map.map Prod.fst).Nodup) :
    (map.map Prod.fst).map (map.lookup ·) = map.map fun pair => some pair.2 := by
  rw [List.map_map]
  exact List.map_congr_left fun _ hmem => lookup_eq_some_of_mem h hmem

end Assoc

end NestedRecords
