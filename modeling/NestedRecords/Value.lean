/-!
# Json values

A record is any json value. The members of an object keep an order; where a name occurs twice
among them, the first occurrence is the one that counts.
-/

namespace NestedRecords

/-- A json value. -/
inductive Value
  | null
  | bool (b : Bool)
  | number (x : Float)
  | string (s : String)
  | array (items : List Value)
  | object (members : List (String × Value))

namespace Value

instance : Inhabited Value := ⟨null⟩

/-! ### Equality -/

mutual

/-- Values are equal when they are built alike from the same names and scalars. -/
def decEq : (v w : Value) → Decidable (v = w)
  | null, null => isTrue rfl
  | bool a, bool b => decidable_of_iff (a = b) (by rw [bool.injEq])
  | number x, number y => decidable_of_iff (x = y) (by rw [number.injEq])
  | string s, string t => decidable_of_iff (s = t) (by rw [string.injEq])
  | array vs, array ws =>
    match decEqItems vs ws with
    | isTrue h => isTrue (h ▸ rfl)
    | isFalse h => isFalse fun heq => h (array.inj heq)
  | object vs, object ws =>
    match decEqMembers vs ws with
    | isTrue h => isTrue (h ▸ rfl)
    | isFalse h => isFalse fun heq => h (object.inj heq)
  | null, bool _ | null, number _ | null, string _ | null, array _ | null, object _ => isFalse nofun
  | bool _, null | bool _, number _ | bool _, string _ | bool _, array _ | bool _, object _ =>
    isFalse nofun
  | number _, null | number _, bool _ | number _, string _ | number _, array _
  | number _, object _ => isFalse nofun
  | string _, null | string _, bool _ | string _, number _ | string _, array _
  | string _, object _ => isFalse nofun
  | array _, null | array _, bool _ | array _, number _ | array _, string _ | array _, object _ =>
    isFalse nofun
  | object _, null | object _, bool _ | object _, number _ | object _, string _
  | object _, array _ => isFalse nofun

/-- Equality of arrays, item by item. -/
def decEqItems : (vs ws : List Value) → Decidable (vs = ws)
  | [], [] => isTrue rfl
  | [], _ :: _ => isFalse nofun
  | _ :: _, [] => isFalse nofun
  | v :: vs, w :: ws =>
    match decEq v w, decEqItems vs ws with
    | isTrue h, isTrue hs => isTrue (by rw [h, hs])
    | isFalse h, _ => isFalse fun heq => h (List.cons.inj heq).1
    | _, isFalse h => isFalse fun heq => h (List.cons.inj heq).2

/-- Equality of objects, member by member. -/
def decEqMembers : (vs ws : List (String × Value)) → Decidable (vs = ws)
  | [], [] => isTrue rfl
  | [], _ :: _ => isFalse nofun
  | _ :: _, [] => isFalse nofun
  | (m, v) :: vs, (n, w) :: ws =>
    match decEq v w, decEqMembers vs ws with
    | isTrue h, isTrue hs =>
      decidable_of_iff (m = n) ⟨fun hn => by rw [hn, h, hs], fun heq => by simp_all⟩
    | isFalse h, _ => isFalse fun heq => by simp_all
    | _, isFalse h => isFalse fun heq => by simp_all

end

instance : DecidableEq Value := decEq

/-! ### Kinds -/

/-- The name of the kind of a value. -/
def kind : Value → String
  | null => "null"
  | bool _ => "boolean"
  | number _ => "number"
  | string _ => "string"
  | array _ => "array"
  | object _ => "object"

end Value

end NestedRecords
