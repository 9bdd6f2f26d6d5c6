import NestedRecords.Proofs.Frame.Operations

/-!
# Frames and records

Records become the rows of a frame by their entries, and the rows of a frame become records again
by their cells. On the way back the members come in an order of their own, with the names that
are indexes in front. That order looks at names alone, so it rearranges a record and not what is
in it.
-/

namespace NestedRecords

namespace MemberOrder

variable {α β : Type}

theorem place_map (f : α → β) (entry : Nat × α) (entries : List (Nat × α)) :
    place (entry.1, f entry.2) (entries.map fun e => (e.1, f e.2)) =
      (place entry entries).map fun e => (e.1, f e.2) := by
  induction entries with
  | nil => rfl
  | cons e rest ih =>
    rw [List.map_cons, place, place]
    split
    · rfl
    · rw [ih, List.map_cons]

theorem sort_map (f : α → β) (entries : List (Nat × α)) :
    sort (entries.map fun e => (e.1, f e.2)) = (sort entries).map fun e => (e.1, f e.2) := by
  induction entries with
  | nil => rfl
  | cons e rest ih =>
    have hsort : ∀ {γ : Type} (first : Nat × γ) (others : List (Nat × γ)),
        sort (first :: others) = place first (sort others) := fun _ _ => rfl
    rw [List.map_cons, hsort, hsort, ih, place_map]

/-- Arranging looks at names alone. -/
theorem arrangeBy_map (f : α → β) (name : β → String) (entries : List α) :
    arrangeBy name (entries.map f) = (arrangeBy (fun entry => name (f entry)) entries).map f := by
  have hindexed : (entries.map f).filterMap (fun entry => (index? (name entry)).map (·, entry)) =
      (entries.filterMap fun entry => (index? (name (f entry))).map (·, entry)).map
        fun e => (e.1, f e.2) := by
    rw [List.filterMap_map, List.map_filterMap]
    refine congrArg (List.filterMap · entries) (funext fun entry => ?_)
    rw [Option.map_map]
    rfl
  unfold arrangeBy
  dsimp only
  rw [hindexed, sort_map, List.filter_map, List.map_append, List.map_map, List.map_map]
  rfl

end MemberOrder

namespace Frame

/-- The frame of some records has the names in them as its columns. -/
theorem mem_columns_ofRecords_iff {records : List Value} {name : String} :
    name ∈ (ofRecords records).columns ↔ ∃ record ∈ records, name ∈ Assoc.keys record.entries := by
  rw [ofRecords, List.mem_eraseDups, List.mem_flatMap]
  constructor
  · rintro ⟨entries, hentries, hname⟩
    obtain ⟨record, hrecord, rfl⟩ := List.mem_map.mp hentries
    exact ⟨record, hrecord, hname⟩
  · rintro ⟨record, hrecord, hname⟩
    exact ⟨record.entries, List.mem_map_of_mem hrecord, hname⟩

theorem mem_columns_ofRecords {records : List Value} {record : Value} (h : record ∈ records)
    {name : String} (hname : name ∈ Assoc.keys record.entries) :
    name ∈ (ofRecords records).columns :=
  mem_columns_ofRecords_iff.mpr ⟨record, h, hname⟩

/-- Two lists of records together have the columns of both. -/
theorem mem_columns_append_iff {records others : List Value} {name : String} :
    name ∈ (ofRecords (records ++ others)).columns ↔
      name ∈ (ofRecords records).columns ∨ name ∈ (ofRecords others).columns := by
  simp only [mem_columns_ofRecords_iff, List.mem_append, or_and_right, exists_or]

/-- **Reading records.** The records of a rectangular frame are its rows, arranged. -/
theorem records_eq {frame : Frame} (hrectangular : frame.Rectangular)
    (hdistinct : frame.columns.Nodup) :
    frame.records = frame.rows.map (MemberOrder.arrangeBy Prod.fst) := by
  refine List.map_congr_left fun row hrow => ?_
  have hkeys : Assoc.keys row = frame.columns := hrectangular row hrow
  -- arranged or not, a member is the cell of its own column
  have hcells : ∀ pair ∈ MemberOrder.arrangeBy Prod.fst row, (pair.1, row.cell pair.1) = pair := by
    intro pair hpair
    have hmem : pair ∈ row := (MemberOrder.arrangeBy_perm Prod.fst row).mem_iff.mp hpair
    rw [Row.cell_of_mem (hkeys ▸ hdistinct) hmem]
  rw [recordColumns, eraseDups_eq_self hdistinct, ← hkeys, Assoc.keys, MemberOrder.arrangeBy_map,
    List.map_map]
  exact (List.map_congr_left hcells).trans (List.map_id _)

end Frame

end NestedRecords
