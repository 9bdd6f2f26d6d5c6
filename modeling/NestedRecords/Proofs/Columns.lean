/-!
# Lists of columns

Two things happen to the columns of a frame, and to the list of names that a planner keeps in its
place: one column gives way to several (`spread`), and columns get new names (`renamed`). Columns
are distinct throughout, so a column is there at most once and its place is known.
-/

namespace NestedRecords

/-! ### One column for many -/

/-- The columns in which one of them has given way to others. -/
def spread (column : String) (others columns : List String) : List String :=
  columns.flatMap fun existing => if existing = column then others else [existing]

theorem spread_of_notMem {column : String} {others columns : List String} (h : column ∉ columns) :
    spread column others columns = columns := by
  induction columns with
  | nil => rfl
  | cons first rest ih =>
    rw [List.mem_cons, not_or] at h
    obtain ⟨hfirst, hrest⟩ := h
    rw [spread, List.flatMap_cons, if_neg (Ne.symm hfirst)]
    exact congrArg (first :: ·) (ih hrest)

theorem spread_append (column : String) (others columns more : List String) :
    spread column others (columns ++ more) =
      spread column others columns ++ spread column others more :=
  List.flatMap_append

/-- The other columns stay. -/
theorem mem_spread {column name : String} {others columns : List String} (h : name ∈ columns)
    (hne : name ≠ column) : name ∈ spread column others columns := by
  refine List.mem_flatMap.mpr ⟨name, h, ?_⟩
  rw [if_neg hne]
  exact List.mem_singleton_self name

/-- A column that is not there does not come up when another one gives way to new ones, unless it is
one of these. -/
theorem notMem_spread {column name : String} {others columns : List String} (h : name ∉ columns)
    (hothers : name ∉ others) : name ∉ spread column others columns := by
  intro hname
  obtain ⟨existing, hexisting, hname⟩ := List.mem_flatMap.mp hname
  split at hname
  · exact hothers hname
  · exact h (List.mem_singleton.mp hname ▸ hexisting)

theorem spread_subset {column : String} {others columns more : List String} (h : columns ⊆ more) :
    spread column others columns ⊆ spread column others more := by
  intro name hname
  obtain ⟨existing, hexisting, hname⟩ := List.mem_flatMap.mp hname
  exact List.mem_flatMap.mpr ⟨existing, h hexisting, hname⟩

/-- The column that gives way is there once, so its place is known. -/
theorem spread_middle {column : String} {done rest : List String}
    (h : (done ++ column :: rest).Nodup) (others : List String) :
    spread column others (done ++ column :: rest) = done ++ others ++ rest := by
  obtain ⟨-, hcolumn, hdone⟩ := List.nodup_append.mp h
  have hin : column ∉ done := fun hmem => hdone _ hmem _ List.mem_cons_self rfl
  have hself : spread column others [column] = others := by
    rw [spread, List.flatMap_singleton, if_pos rfl]
  rw [spread_append, ← List.singleton_append, spread_append, hself, spread_of_notMem hin,
    spread_of_notMem (List.nodup_cons.mp hcolumn).1, List.append_assoc]

/-- Columns in the middle are none of those around them. -/
theorem notMem_of_nodup_middle {done others rest : List String}
    (h : (done ++ others ++ rest).Nodup) {name : String} (hname : name ∈ others) :
    name ∉ done ++ rest := by
  obtain ⟨hfront, -, hrest⟩ := List.nodup_append.mp h
  obtain ⟨-, -, hdone⟩ := List.nodup_append.mp hfront
  intro hmem
  rcases List.mem_append.mp hmem with hmem | hmem
  · exact hdone name hmem name hname rfl
  · exact hrest name (List.mem_append_right _ hname) name hmem rfl

/-- The columns around one of them are others. -/
theorem ne_of_nodup_middle {column : String} {done rest : List String}
    (h : (done ++ column :: rest).Nodup) {name : String} (hname : name ∈ done ++ rest) :
    name ≠ column := by
  rintro rfl
  rw [List.append_cons] at h
  exact notMem_of_nodup_middle h (List.mem_singleton_self name) hname

/-- When columns can take the place of one, that one is the only name they may share with those
that are there. -/
theorem eq_of_mem_middle {column : String} {done others rest : List String}
    (h : (done ++ others ++ rest).Nodup) {name : String} (hname : name ∈ others)
    (hmem : name ∈ done ++ column :: rest) : name = column :=
  (List.mem_cons.mp (List.perm_middle.mem_iff.mp hmem)).resolve_right
    (notMem_of_nodup_middle h hname)

/-- The columns around a place stay when others take it. -/
theorem mem_middle_of_ne {column name : String} {done rest : List String} (others : List String)
    (h : name ∈ done ++ column :: rest) (hne : name ≠ column) : name ∈ done ++ others ++ rest := by
  rcases List.mem_append.mp h with hdone | hrest
  · exact List.mem_append_left _ (List.mem_append_left _ hdone)
  · exact List.mem_append_right _ ((List.mem_cons.mp hrest).resolve_left hne)

/-- Up to their order, columns in the middle stand in front of those around them. -/
theorem middle_perm (done others rest : List String) :
    (done ++ others ++ rest).Perm (others ++ (done ++ rest)) := by
  rw [List.append_assoc]
  exact List.perm_append_comm_assoc done others rest

/-- Distinct columns can take the place of one if that one is the only name they share with those
that are there. -/
theorem nodup_middle {column : String} {done others rest : List String}
    (h : (done ++ column :: rest).Nodup) (hothers : others.Nodup)
    (hfree : ∀ name ∈ others, name ∈ done ++ column :: rest → name = column) :
    (done ++ others ++ rest).Nodup := by
  have hnew : ∀ name ∈ others, name ∉ done ++ rest := by
    intro name hname hmem
    have hin : name ∈ done ++ column :: rest :=
      List.perm_middle.mem_iff.mpr (List.mem_cons_of_mem column hmem)
    exact ne_of_nodup_middle h hmem (hfree name hname hin)
  have hrest : (done ++ rest).Nodup := (List.nodup_cons.mp (List.perm_middle.nodup h)).2
  refine (middle_perm done others rest).nodup_iff.mpr
    (List.nodup_append.mpr ⟨hothers, hrest, ?_⟩)
  rintro name hname _ hmem rfl
  exact hnew name hname hmem

/-- Columns stay distinct when one of them gives way to others that share no name with the rest. -/
theorem nodup_spread {column : String} {others columns : List String} (h : columns.Nodup)
    (hmem : column ∈ columns) (hothers : others.Nodup)
    (hfree : ∀ name ∈ others, name ∈ columns → name = column) :
    (spread column others columns).Nodup := by
  obtain ⟨front, back, rfl⟩ := List.append_of_mem hmem
  rw [spread_middle h]
  exact nodup_middle h hothers hfree

/-- A column stands between others or is one of these. -/
theorem mem_middle_iff {done middle rest : List String} {name : String} :
    name ∈ done ++ middle ++ rest ↔ name ∈ middle ∨ name ∈ done ++ rest := by
  simp only [List.mem_append]
  rw [or_comm (a := name ∈ done), or_assoc]

/-- Columns are covered up to some names, and so are those that take a place among them. -/
theorem subset_middle {done done' rest rest' middle middle' names more : List String}
    (h : done' ++ rest' ⊆ done ++ rest ++ names) (hmiddle : middle' ⊆ middle ++ more) :
    done' ++ middle' ++ rest' ⊆ done ++ middle ++ rest ++ (names ++ more) := by
  intro name hname
  have haround := @h name
  have hinside := @hmiddle name
  simp only [List.mem_append] at haround hinside hname ⊢
  grind

/-- Some of the columns around a place are distinct from the column there, which is among them or
not. -/
private theorem sublist_middle {column : String} {done rest columns : List String}
    (h : columns.Sublist (done ++ column :: rest)) (hdistinct : (done ++ column :: rest).Nodup) :
    column ∉ columns ∧ columns.Sublist (done ++ rest) ∨
      ∃ front back, columns = front ++ column :: back ∧ front.Sublist done ∧ back.Sublist rest := by
  obtain ⟨front, tail, rfl, hfront, htail⟩ := List.sublist_append_iff.mp h
  rcases List.sublist_cons_iff.mp htail with htail | ⟨back, rfl, hback⟩
  · refine .inl ⟨fun hmem => ?_, hfront.append htail⟩
    exact ne_of_nodup_middle hdistinct ((hfront.append htail).subset hmem) rfl
  · exact .inr ⟨front, back, rfl, hfront, hback⟩

/-- Where a column is not there, nothing is in its place. -/
theorem sublist_of_notMem {column : String} {done rest columns : List String}
    (h : columns.Sublist (done ++ column :: rest)) (hdistinct : (done ++ column :: rest).Nodup)
    (habsent : column ∉ columns) : columns.Sublist (done ++ rest) := by
  rcases sublist_middle h hdistinct with ⟨-, hsub⟩ | ⟨front, back, rfl, -, -⟩
  · exact hsub
  · exact absurd (List.mem_append_right _ List.mem_cons_self) habsent

/-- Where a column is there, others can take its place. -/
theorem spread_sublist {column : String} {done rest columns : List String}
    (h : columns.Sublist (done ++ column :: rest)) (hdistinct : (done ++ column :: rest).Nodup)
    (hmem : column ∈ columns) (others : List String) :
    (spread column others columns).Sublist (done ++ others ++ rest) := by
  rcases sublist_middle h hdistinct with ⟨habsent, -⟩ | ⟨front, back, rfl, hfront, hback⟩
  · exact absurd hmem habsent
  · rw [spread_middle (hdistinct.sublist h)]
    exact (hfront.append (List.Sublist.refl others)).append hback

/-! ### Distinct columns -/

/-- One more column is a new one. -/
theorem nodup_concat_iff {columns : List String} {column : String} :
    (columns ++ [column]).Nodup ↔ columns.Nodup ∧ column ∉ columns := by
  rw [(List.perm_append_singleton column columns).nodup_iff, List.nodup_cons]
  exact and_comm

/-- Columns are distinct once repetitions are erased. -/
theorem nodup_eraseDups : ∀ columns : List String, columns.eraseDups.Nodup
  | [] => List.nodup_nil
  | first :: rest => by
    rw [List.eraseDups_cons, List.nodup_cons]
    refine ⟨fun hmem => ?_, nodup_eraseDups _⟩
    rw [List.mem_eraseDups] at hmem
    simpa using (List.mem_filter.mp hmem).2
termination_by columns => columns.length
decreasing_by exact Nat.lt_succ_of_le (List.length_filter_le _ _)

/-- Distinct columns have no repetitions to be erased. -/
theorem eraseDups_eq_self {columns : List String} (h : columns.Nodup) :
    columns.eraseDups = columns := by
  induction columns with
  | nil => rfl
  | cons first rest ih =>
    obtain ⟨hfirst, hrest⟩ := List.nodup_cons.mp h
    have hkeep : rest.filter (fun column => !column == first) = rest := by
      refine List.filter_eq_self.mpr fun column hmem => ?_
      have hne : column ≠ first := fun heq => hfirst (heq ▸ hmem)
      simpa using hne
    rw [List.eraseDups_cons, hkeep, ih hrest]

/-! ### New names -/

/-- What a column is called after a renaming. -/
def renamed (mapping : List (String × String)) (column : String) : String :=
  (mapping.lookup column).getD column

end NestedRecords
