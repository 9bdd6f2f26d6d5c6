import NestedRecords.Plan.Execution
import NestedRecords.Proofs.Frame.Operations
import NestedRecords.Proofs.Plan.Unraveling
import NestedRecords.Proofs.Unpack.Flattening

/-!
# Steps on frames and flattening by structure

While a plan runs, the columns of its frame are done or pending, as in `Unravels`, and a row of the
frame stands for rows of the flat result: the values of the columns that are done, followed by
each row that the pending columns flatten to (`Row.flattened`). A step takes one pending column
apart and replaces each row by others. What the rows stand for does not change by that, and
neither does whether their values fit (`Row.ReplacedBy`).

The frame may lack columns that the plan counts on, since records may lack members. Such a column
is null in every row, and its steps are skipped. A frame *shows* columns when its own are some of
them, in the same order (`Frame.Shows`); this is what keeps the columns apart that a step creates
from those that are there.
-/

namespace NestedRecords

open NestedRecords.Tree

variable {done done' : List String} {pending pending' : Fields} {column : String}

namespace Row

/-! ### What a row stands for -/

/-- The flat rows that a row stands for when some of its columns are done and others pending. -/
def flattened (done : List String) (pending : Fields) (row : Row) : List (List Value) :=
  (fieldRows pending row).map (done.map row.cell ++ ·)

/-- **Replacing a row.** Some rows, of which other columns are done and pending, stand for what the
row stood for, and their values fit if those of the row did. -/
structure ReplacedBy (row : Row) (done : List String) (pending : Fields) (rows : List Row)
    (done' : List String) (pending' : Fields) : Prop where
  flattened : rows.flatMap (flattened done' pending') = row.flattened done pending
  fits : (∀ other ∈ rows, FieldsFit pending' other) ↔ FieldsFit pending row

/-- A scalar has nothing to be taken apart. -/
theorem replacedBy_scalar (row : Row) (datatype : Datatype) :
    row.ReplacedBy done ((column, .scalar datatype) :: pending) [row] (done ++ [column])
      pending where
  flattened := by
    rw [List.flatMap_singleton, Row.flattened, Row.flattened, fieldRows, rows,
      List.flatMap_singleton, List.map_map]
    refine List.map_congr_left fun values _ => ?_
    rw [List.map_append, List.append_assoc]
    rfl
  fits := by
    rw [fieldsFit_cons, List.forall_mem_singleton]
    exact ⟨fun h => ⟨.scalar _ _, h⟩, fun h => h.2⟩

/-- A list gives way to its items, each in a row of its own. -/
theorem replacedBy_list {row : Row} {element : Tree} {items : List Value} {f : Value → Row}
    (hitems : (row.cell column).items? = some items)
    (hcell : ∀ item ∈ items, (f item).cell column = item)
    (hdone : ∀ item ∈ items, ∀ name ∈ done, (f item).cell name = row.cell name)
    (hpending : ∀ item ∈ items, ∀ name ∈ pending.map Prod.fst,
      (f item).cell name = row.cell name) :
    row.ReplacedBy done ((column, .list element) :: pending) (items.map f)
      done ((column, element) :: pending) where
  flattened := by
    have hrow : ∀ item ∈ items, (f item).flattened done ((column, element) :: pending) =
        ((element.rows item).flatMap fun values =>
          (fieldRows pending row).map (values ++ ·)).map (done.map row.cell ++ ·) := by
      intro item hmem
      rw [Row.flattened, fieldRows, hcell item hmem, fieldRows_congr (hpending item hmem),
        List.map_congr_left (hdone item hmem)]
    rw [List.flatMap_map, Row.flattened, fieldRows, rows_list hitems, List.flatMap_assoc,
      List.map_flatMap]
    exact congrArg List.flatten (List.map_congr_left hrow)
  fits := by
    rw [fieldsFit_cons, fits_list_iff hitems, List.forall_mem_map]
    constructor
    · intro h
      obtain ⟨first, hfirst⟩ := List.exists_mem_of_ne_nil items (Value.items_ne_nil hitems)
      refine ⟨fun item hmem => ?_, ?_⟩
      · rw [← hcell item hmem]
        exact (fieldsFit_cons.mp (h item hmem)).1
      · exact (fieldsFit_congr (hpending first hfirst)).mp (fieldsFit_cons.mp (h first hfirst)).2
    · rintro ⟨hitem, hrest⟩ item hmem
      refine fieldsFit_cons.mpr ⟨?_, (fieldsFit_congr (hpending item hmem)).mpr hrest⟩
      rw [hcell item hmem]
      exact hitem item hmem

/-- A struct gives way to its members, each in a column of its own. -/
theorem replacedBy_struct {row other : Row} {lead : String} {fields : Fields} {members : Row}
    (hmembers : (row.cell column).members? = some members)
    (hcell : ∀ name ∈ fields.map Prod.fst, other.cell (lead ++ name) = members.cell name)
    (hdone : ∀ name ∈ done, other.cell name = row.cell name)
    (hpending : ∀ name ∈ pending.map Prod.fst, other.cell name = row.cell name) :
    row.ReplacedBy done ((column, .struct fields) :: pending) [other]
      done (leadFields lead fields ++ pending) where
  flattened := by
    rw [List.flatMap_singleton, Row.flattened, Row.flattened, fieldRows_append, leadFields,
      fieldRows_map (lead ++ ·) hcell, fieldRows_congr hpending, fieldRows, rows_struct hmembers,
      List.map_congr_left hdone]
  fits := by
    rw [List.forall_mem_singleton, fieldsFit_append, leadFields, fieldsFit_map (lead ++ ·) hcell,
      fieldsFit_congr hpending, fieldsFit_cons, fits_struct_iff hmembers]

end Row

namespace Frame

/-! ### What a frame stands for -/

variable {frame after : Frame}

/-- The values of the pending columns fit their types in every row. -/
def Fits (pending : Fields) (frame : Frame) : Prop := ∀ row ∈ frame.rows, FieldsFit pending row

/-- **Showing columns.** The columns of the frame are some of those that are done or pending, and
its rows have cells for just these. -/
structure Shows (done : List String) (pending : Fields) (frame : Frame) : Prop where
  columns : frame.columns.Sublist (done ++ pending.map Prod.fst)
  rectangular : frame.Rectangular

/-- **Replacing a frame.** Another frame, of which other columns are done and pending, stands for
what the frame stood for. -/
structure ReplacedBy (frame : Frame) (done : List String) (pending : Fields) (after : Frame)
    (done' : List String) (pending' : Fields) : Prop where
  shows : after.Shows done' pending'
  flattened : after.rows.flatMap (Row.flattened done' pending') =
    frame.rows.flatMap (Row.flattened done pending)
  fits : after.Fits pending' ↔ frame.Fits pending

/-- A frame is replaced row by row. -/
theorem replacedBy_of_rows {g : Row → List Row} (hshows : after.Shows done' pending')
    (hrows : after.rows = frame.rows.flatMap g)
    (h : ∀ row ∈ frame.rows, row.ReplacedBy done pending (g row) done' pending') :
    frame.ReplacedBy done pending after done' pending' where
  shows := hshows
  flattened := by
    rw [hrows, List.flatMap_assoc]
    exact congrArg List.flatten (List.map_congr_left fun row hmem => (h row hmem).flattened)
  fits := by
    unfold Fits
    rw [hrows, List.forall_mem_flatMap]
    exact forall_congr' fun row => forall_congr' fun hmem => (h row hmem).fits

/-- **Going on.** A computation on the frame either replaces it or fails, and it fails only on a
value of another shape in a frame that has values that do not fit. -/
def Continues (frame : Frame) (done : List String) (pending : Fields) (done' : List String)
    (pending' : Fields) (result : Except FrameError Frame) : Prop :=
  Ends (fun error => error.IsMisfit ∧ ¬frame.Fits pending)
    (frame.ReplacedBy done pending · done' pending') result

/-- One computation after another. -/
theorem Continues.bind {done'' : List String} {pending'' : Fields}
    {result : Except FrameError Frame} {f : Frame → Except FrameError Frame}
    (h : frame.Continues done pending done' pending' result)
    (hf : ∀ after : Frame, after.Shows done' pending' →
      after.Continues done' pending' done'' pending'' (f after)) :
    frame.Continues done pending done'' pending'' (result >>= f) := by
  refine Ends.bind h fun after hafter => (hf after hafter.shows).mono ?_ ?_
  · rintro error ⟨hmisfit, hfits⟩
    exact ⟨hmisfit, fun hframe => hfits (hafter.fits.mpr hframe)⟩
  · intro last hlast
    exact ⟨hlast.shows, hlast.flattened.trans hafter.flattened, hlast.fits.trans hafter.fits⟩

/-- A frame without the column is null there. -/
theorem Shows.cell_of_notMem (h : frame.Shows done pending) {row : Row} (hrow : row ∈ frame.rows)
    (hcolumn : column ∉ frame.columns) : row.cell column = .null :=
  Row.cell_of_notMem (h.rectangular row hrow ▸ hcolumn)

/-! ### Steps -/

/-- The next column holds scalars already. -/
theorem continues_scalar {datatype : Datatype}
    (h : frame.Shows done ((column, .scalar datatype) :: pending)) :
    frame.Continues done ((column, .scalar datatype) :: pending) (done ++ [column]) pending
      (.ok frame) := by
  have hshows : frame.Shows (done ++ [column]) pending := by
    refine ⟨?_, h.rectangular⟩
    rw [List.append_assoc]
    exact h.columns
  exact .ok (replacedBy_of_rows hshows (List.flatMap_singleton' _).symm
    fun row _ => row.replacedBy_scalar datatype)

/-- **Step lemma for lists.** -/
theorem continues_explode {element : Tree}
    (h : frame.Shows done ((column, .list element) :: pending))
    (hdistinct : (done ++ column :: pending.map Prod.fst).Nodup) :
    frame.Continues done ((column, .list element) :: pending) done ((column, element) :: pending)
      (Plan.runStep engine frame (.explode column)) := by
  by_cases hmem : column ∈ frame.columns
  · have hrun : Plan.runStep engine frame (.explode column) = frame.explode column := if_pos hmem
    rw [hrun]
    refine (explode_ends hmem).mono ?_ ?_
    · rintro error ⟨hmisfit, row, hrow, hitems⟩
      exact ⟨hmisfit, fun hfits => not_fits_list hitems (fieldsFit_cons.mp (hfits row hrow)).1⟩
    · rintro _ ⟨hitems, rfl⟩
      refine replacedBy_of_rows ⟨h.columns, ?_⟩ rfl ?_
      · intro other hother
        obtain ⟨row, hrow, hother⟩ := List.mem_flatMap.mp hother
        obtain ⟨item, -, rfl⟩ := List.mem_map.mp hother
        rw [Assoc.keys_insert, h.rectangular row hrow, if_pos hmem]
      · -- setting the cell of the column leaves all other cells alone
        intro row hrow
        have hother : ∀ item, ∀ name ∈ done ++ pending.map Prod.fst,
            Row.cell (Assoc.insert column item row) name = row.cell name := by
          intro item name hname
          rw [Row.cell_insert, if_neg (ne_of_nodup_middle hdistinct hname)]
        refine Row.replacedBy_list (hitems row hrow) ?_ ?_ ?_
        · intro item _
          rw [Row.cell_insert, if_pos rfl]
        · exact fun item _ name hname => hother item name (List.mem_append_left _ hname)
        · exact fun item _ name hname => hother item name (List.mem_append_right _ hname)
  · have hskip : Plan.runStep engine frame (.explode column) = .ok frame := if_neg hmem
    rw [hskip]
    refine .ok (replacedBy_of_rows ⟨h.columns, h.rectangular⟩ (List.flatMap_singleton' _).symm ?_)
    -- the column is null in every row, and null gives rows to a single null
    intro row hrow
    have hnull : row.cell column = .null := h.cell_of_notMem hrow hmem
    have hitems : (row.cell column).items? = some [.null] := by
      rw [hnull]
      rfl
    refine Row.replacedBy_list (f := fun _ => row) hitems ?_ (fun _ _ _ _ => rfl) fun _ _ _ _ => rfl
    intro item hitem
    rw [hnull, List.mem_singleton.mp hitem]

variable {lead : String} {fields : Fields}

/-- The names of the columns once a struct has given way to its fields. -/
private theorem map_fst_unnested (lead : String) (fields pending : Fields) :
    (leadFields lead fields ++ pending).map Prod.fst =
      (fields.map Prod.fst).map (lead ++ ·) ++ pending.map Prod.fst := by
  rw [List.map_append, map_fst_leadFields, fieldColumns_eq]

/-- Unnesting a column that is there. -/
private theorem continues_unnest_of_mem
    (h : frame.Shows done ((column, .struct fields) :: pending))
    (hcolumns : (done ++ column :: pending.map Prod.fst).Nodup)
    (hdistinct : (done ++ (fields.map Prod.fst).map (lead ++ ·) ++ pending.map Prod.fst).Nodup)
    (hmem : column ∈ frame.columns) :
    frame.Continues done ((column, .struct fields) :: pending) done
      (leadFields lead fields ++ pending) (frame.unnest column lead (fields.map Prod.fst)) := by
  have hsub : (spread column ((fields.map Prod.fst).map (lead ++ ·)) frame.columns).Sublist
      (done ++ (fields.map Prod.fst).map (lead ++ ·) ++ pending.map Prod.fst) :=
    spread_sublist h.columns hcolumns hmem _
  have hfree : ∀ name ∈ (fields.map Prod.fst).map (lead ++ ·),
      name ∈ frame.columns → name = column := fun name hname hin =>
    eq_of_mem_middle hdistinct hname (h.columns.subset hin)
  refine (unnest_ends hmem hfree).mono ?_ ?_
  · rintro error ⟨hmisfit, row, hrow, hmembers⟩
    exact ⟨hmisfit, fun hfits => not_fits_struct hmembers (fieldsFit_cons.mp (hfits row hrow)).1⟩
  · rintro _ ⟨hmembers, rfl⟩
    refine replacedBy_of_rows ⟨?_, ?_⟩ List.map_eq_flatMap fun row hrow => ?_
    · rw [map_fst_unnested, ← List.append_assoc]
      exact hsub
    · intro other hother
      obtain ⟨row, -, rfl⟩ := List.mem_map.mp hother
      exact Row.keys_spread
    · -- the columns around keep their cells, since no new column has the name of one of them
      have hother : ∀ name ∈ done ++ pending.map Prod.fst,
          Row.cell (Row.spread frame.columns column lead (fields.map Prod.fst)
            (row.cell column).members row) name = row.cell name := fun name hname =>
        Row.cell_spread_other (h.rectangular row hrow) (ne_of_nodup_middle hcolumns hname)
          fun hin => notMem_of_nodup_middle hdistinct hin hname
      refine Row.replacedBy_struct (hmembers row hrow) ?_ ?_ ?_
      · exact fun name => Row.cell_spread_field (hdistinct.sublist hsub) hmem
      · exact fun name hname => hother name (List.mem_append_left _ hname)
      · exact fun name hname => hother name (List.mem_append_right _ hname)

/-- Skipping a column that is not there. -/
private theorem continues_unnest_of_notMem
    (h : frame.Shows done ((column, .struct fields) :: pending))
    (hcolumns : (done ++ column :: pending.map Prod.fst).Nodup)
    (hdistinct : (done ++ (fields.map Prod.fst).map (lead ++ ·) ++ pending.map Prod.fst).Nodup)
    (habsent : column ∉ frame.columns) :
    frame.Continues done ((column, .struct fields) :: pending) done
      (leadFields lead fields ++ pending) (.ok frame) := by
  have hsub : frame.columns.Sublist (done ++ pending.map Prod.fst) :=
    sublist_of_notMem h.columns hcolumns habsent
  have hshows : frame.Shows done (leadFields lead fields ++ pending) := by
    refine ⟨?_, h.rectangular⟩
    rw [map_fst_unnested]
    exact hsub.trans ((List.sublist_append_right _ _).append_left done)
  refine .ok (replacedBy_of_rows hshows (List.flatMap_singleton' _).symm fun row hrow => ?_)
  -- the column is null in every row, and the new columns are not there either
  have hmembers : (row.cell column).members? = some [] := by
    rw [h.cell_of_notMem hrow habsent]
    rfl
  refine Row.replacedBy_struct hmembers ?_ (fun _ _ => rfl) fun _ _ => rfl
  intro name hname
  refine h.cell_of_notMem hrow fun hin => ?_
  exact notMem_of_nodup_middle hdistinct (List.mem_map_of_mem hname) (hsub.subset hin)

/-- **Step lemma for structs.** -/
theorem continues_unnest (h : frame.Shows done ((column, .struct fields) :: pending))
    (hcolumns : (done ++ column :: pending.map Prod.fst).Nodup)
    (hdistinct : (done ++ Unfolding.fieldColumns lead fields ++ pending.map Prod.fst).Nodup) :
    frame.Continues done ((column, .struct fields) :: pending) done
      (leadFields lead fields ++ pending)
      (Plan.runStep engine frame (.unnest column lead (fields.map Prod.fst))) := by
  rw [fieldColumns_eq] at hdistinct
  by_cases hmem : column ∈ frame.columns
  · have hrun : Plan.runStep engine frame (.unnest column lead (fields.map Prod.fst)) =
        frame.unnest column lead (fields.map Prod.fst) := if_pos hmem
    rw [hrun]
    exact continues_unnest_of_mem h hcolumns hdistinct hmem
  · have hskip : Plan.runStep engine frame (.unnest column lead (fields.map Prod.fst)) =
        .ok frame := if_neg hmem
    rw [hskip]
    exact continues_unnest_of_notMem h hcolumns hdistinct hmem

/-! ### Runs -/

/-- **Run lemma.** The steps of an unraveling, run on a frame that shows its columns, replace the
frame by one in which all columns are done, or fail on a value that does not fit. -/
theorem continues_run {steps : List Step} {out : List String}
    (h : Unravels done pending steps out) : ∀ {frame : Frame}, frame.Shows done pending →
      (done ++ pending.map Prod.fst).Nodup →
      frame.Continues done pending out [] (steps.foldlM (Plan.runStep engine) frame) := by
  induction h with
  | nil done =>
    intro frame hshows _
    exact .ok ⟨hshows, rfl, Iff.rfl⟩
  | scalar _ ih =>
    intro frame hshows hdistinct
    refine (continues_scalar hshows).bind fun after hafter => ih hafter ?_
    rw [List.append_assoc]
    exact hdistinct
  | list _ ih =>
    intro frame hshows hdistinct
    rw [List.foldlM_cons]
    exact (continues_explode hshows hdistinct).bind fun after hafter => ih hafter hdistinct
  | struct distinct _ ih =>
    intro frame hshows hdistinct
    rw [List.foldlM_cons]
    refine (continues_unnest hshows hdistinct distinct).bind fun after hafter => ih hafter ?_
    rw [List.map_append, map_fst_leadFields, ← List.append_assoc]
    exact distinct

end Frame

end NestedRecords
