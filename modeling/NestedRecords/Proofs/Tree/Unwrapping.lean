import NestedRecords.Plan

/-!
# Anonymous structs that arrive spread out

A record whose entries are those of an anonymous struct can hold the struct as a whole, under the
empty name, or hold its fields beside its other entries. In the second case the fields of the record
are the *unwrapped* ones: an anonymous struct has given way to its fields, and these to theirs if
one of them is an anonymous struct again.

The columns that a plan begins with tell these two cases apart by the empty name alone
(`Tree.fieldSources_eq`).
-/

namespace NestedRecords

namespace Tree

mutual

/-- The fields that a named type comes as when anonymous structs are spread out. -/
def unwrap (name : String) : Tree → List (String × Tree)
  | struct fields => if name = "" then unwrapFields fields else [(name, struct fields)]
  | scalar datatype => [(name, scalar datatype)]
  | list element => [(name, list element)]

/-- Some fields with the anonymous structs among them spread out. -/
def unwrapFields : List (String × Tree) → List (String × Tree)
  | [] => []
  | (name, type) :: rest => unwrap name type ++ unwrapFields rest

end

/-- One of the fields is an anonymous struct. -/
def Wrapped (fields : Fields) : Prop := ∃ inner, ("", struct inner) ∈ fields

theorem unwrapFields_append (fields others : Fields) :
    unwrapFields (fields ++ others) = unwrapFields fields ++ unwrapFields others := by
  induction fields with
  | nil => rfl
  | cons field rest ih =>
    obtain ⟨name, type⟩ := field
    rw [List.cons_append, unwrapFields, unwrapFields, ih, List.append_assoc]

/-- An anonymous struct gives way to its fields. -/
theorem unwrapFields_anonymous (fields others : Fields) :
    unwrapFields (("", struct fields) :: others) = unwrapFields (fields ++ others) := by
  rw [unwrapFields, unwrap, if_pos rfl, unwrapFields_append]

/-- A field that is no anonymous struct stays as it is. -/
theorem unwrap_eq_self {name : String} {type : Tree} (h : ¬Wrapped [(name, type)]) :
    unwrap name type = [(name, type)] := by
  cases type with
  | scalar => rw [unwrap]
  | list => rw [unwrap]
  | struct inner =>
    have hname : name ≠ "" := by
      rintro rfl
      exact h ⟨inner, List.mem_cons_self⟩
    rw [unwrap, if_neg hname]

theorem not_wrapped_cons {field : String × Tree} {rest : Fields} :
    ¬Wrapped (field :: rest) ↔ ¬Wrapped [field] ∧ ¬Wrapped rest := by
  unfold Wrapped
  simp only [List.mem_cons, List.not_mem_nil, or_false, exists_or, not_or]

theorem unwrapFields_eq_self {fields : Fields} (h : ¬Wrapped fields) :
    unwrapFields fields = fields := by
  induction fields with
  | nil => rfl
  | cons field rest ih =>
    obtain ⟨hfield, hrest⟩ := not_wrapped_cons.mp h
    rw [unwrapFields, unwrap_eq_self hfield, ih hrest]
    rfl

/-- An anonymous struct is one of the entries behind one that is none. -/
theorem Wrapped.of_cons {field : String × Tree} {rest : Fields} (h : Wrapped (field :: rest))
    (whole : ¬Wrapped [field]) : Wrapped rest :=
  Classical.byContradiction fun hrest => not_wrapped_cons.mpr ⟨whole, hrest⟩ h

/-- The names that stand among the columns when anonymous structs are spread out. -/
def spreadNames (fields : Fields) : List String :=
  ((unwrapFields fields).map Prod.fst).filter (· ≠ "")

theorem empty_notMem_spreadNames (fields : Fields) : "" ∉ spreadNames fields := fun h =>
  of_decide_eq_true (List.mem_filter.mp h).2 rfl

theorem spreadNames_anonymous (fields others : Fields) :
    spreadNames (("", struct fields) :: others) = spreadNames (fields ++ others) := by
  rw [spreadNames, unwrapFields_anonymous, spreadNames]

/-- The name of an entry that stays as it is, and those of the entries behind it. -/
theorem spreadNames_cons {name : String} {type : Tree} {rest : Fields}
    (whole : ¬Wrapped [(name, type)]) :
    spreadNames ((name, type) :: rest) = [name].filter (· ≠ "") ++ spreadNames rest := by
  rw [spreadNames, unwrapFields, unwrap_eq_self whole, List.map_append, List.filter_append]
  rfl

/-- Without anonymous structs, the names are those of the fields. -/
theorem spreadNames_subset {fields : Fields} (h : ¬Wrapped fields) :
    spreadNames fields ⊆ fields.map Prod.fst := by
  rw [spreadNames, unwrapFields_eq_self h]
  exact fun _ hname => (List.mem_filter.mp hname).1

/-! ### The columns of a record -/

/-- Where there is a column without a name, every field is read from the column of its name. -/
theorem fieldSources_of_mem {present : List String} (h : "" ∈ present) (fields : Fields) :
    fieldSources present fields = (fields.map Prod.fst).filter (· ∈ present) := by
  induction fields with
  | nil => rfl
  | cons field rest ih =>
    obtain ⟨name, type⟩ := field
    have hfield : sources present name type = [name].filter (· ∈ present) := by
      by_cases hname : name ∈ present
      · cases type <;> simp [sources, hname]
      · have hne : name ≠ "" := fun heq => hname (heq ▸ h)
        cases type <;> simp [sources, hname, hne]
    rw [fieldSources, hfield, ih, ← List.filter_append]
    rfl

mutual

theorem sources_of_notMem {present : List String} (h : "" ∉ present) (name : String) :
    ∀ type : Tree, sources present name type =
      ((unwrap name type).map Prod.fst).filter (· ∈ present)
  | scalar _ => by by_cases hname : name ∈ present <;> simp [sources, unwrap, hname]
  | list _ => by by_cases hname : name ∈ present <;> simp [sources, unwrap, hname]
  | struct fields => by
    rw [sources, unwrap]
    by_cases hname : name = ""
    · rw [hname, if_neg h, if_pos rfl, if_pos rfl, fieldSources_of_notMem h fields]
    · rw [if_neg hname, if_neg hname]
      by_cases hmem : name ∈ present <;> simp [hmem]

/-- Where there is none, the fields of an anonymous struct are read from columns of their own. -/
theorem fieldSources_of_notMem {present : List String} (h : "" ∉ present) :
    ∀ fields : List (String × Tree), fieldSources present fields =
      ((unwrapFields fields).map Prod.fst).filter (· ∈ present)
  | [] => rfl
  | (name, type) :: rest => by
    rw [fieldSources, sources_of_notMem h, fieldSources_of_notMem h, unwrapFields, List.map_append,
      List.filter_append]

end

/-- The fields by which some columns are read: an anonymous struct comes as a whole if there is a
column without a name. -/
def arrival (present : List String) (fields : Fields) : Fields :=
  if "" ∈ present then fields else unwrapFields fields

theorem arrival_of_mem {present : List String} (h : "" ∈ present) (fields : Fields) :
    arrival present fields = fields := if_pos h

theorem arrival_of_notMem {present : List String} (h : "" ∉ present) (fields : Fields) :
    arrival present fields = unwrapFields fields := if_neg h

/-- Without anonymous structs there is one way to arrive. -/
theorem arrival_eq_self {fields : Fields} (h : ¬Wrapped fields) (present : List String) :
    arrival present fields = fields := by
  unfold arrival
  split
  · rfl
  · exact unwrapFields_eq_self h

/-- Only for an anonymous struct the columns make a difference. -/
theorem arrival_congr {present others : List String} {fields : Fields}
    (h : Wrapped fields → ("" ∈ present ↔ "" ∈ others)) :
    arrival present fields = arrival others fields := by
  by_cases hwrapped : Wrapped fields
  · unfold arrival
    simp only [h hwrapped]
  · rw [arrival_eq_self hwrapped, arrival_eq_self hwrapped]

/-- **The columns of some records.** Fields are read from the columns of their names, once it is
settled how an anonymous struct arrives. -/
theorem fieldSources_eq (present : List String) (fields : Fields) :
    fieldSources present fields =
      ((arrival present fields).map Prod.fst).filter (· ∈ present) := by
  by_cases h : "" ∈ present
  · rw [arrival_of_mem h, fieldSources_of_mem h]
  · rw [arrival_of_notMem h, fieldSources_of_notMem h]

end Tree

end NestedRecords
