import NestedRecords.Proofs.Plan.Unfolding
import NestedRecords.Proofs.Tree.Unwrapping

/-!
# Plans that keep the root apart

An unraveling forgets which of its pending columns are entries of the record. For an anonymous
struct at the root this makes a difference, since it may come spread out, and then the step that
would take it apart has nothing to do. `Threads` is the walk over a tree that keeps the entries of
the record apart from the columns below the one at hand, and that knows a step on an anonymous
struct when it meets one: such a step gives the fields no lead.

All plans are of this kind (`Unfolding.ofFields_threads`). For the columns below an entry there is
nothing new to be said, as they are taken apart in one stretch, whatever the entries behind it are
(`Threads.of_unravels`).
-/

namespace NestedRecords

/-- **Threading columns.** An unraveling in which the pending columns are those below an entry of
the record, in front, and the entries behind it. An entry is begun when there is nothing left below
the one before it; an anonymous struct is not begun but gives way to its fields, as further
entries. -/
inductive Threads : List String → Fields → Fields → List Step → List String → Prop
  | nil (done : List String) : Threads done [] [] [] done
  | enter {done : List String} {entry : String × Tree} {root : Fields} {steps : List Step}
      {out : List String} (whole : ¬Tree.Wrapped [entry])
      (rest : Threads done [entry] root steps out) :
    Threads done [] (entry :: root) steps out
  | aside {done : List String} {fields root : Fields} {steps : List Step} {out : List String}
      (distinct : (done ++ (fields ++ root).map Prod.fst).Nodup)
      (rest : Threads done [] (fields ++ root) steps out) :
    Threads done [] (("", .struct fields) :: root)
      (.unnest "" "" (fields.map Prod.fst) :: steps) out
  | scalar {done : List String} {column : String} {datatype : Datatype} {below root : Fields}
      {steps : List Step} {out : List String}
      (rest : Threads (done ++ [column]) below root steps out) :
    Threads done ((column, .scalar datatype) :: below) root steps out
  | list {done : List String} {column : String} {element : Tree} {below root : Fields}
      {steps : List Step} {out : List String}
      (rest : Threads done ((column, element) :: below) root steps out) :
    Threads done ((column, .list element) :: below) root (.explode column :: steps) out
  | struct {done : List String} {column lead : String} {fields below root : Fields}
      {steps : List Step} {out : List String}
      (distinct :
        (done ++ Unfolding.fieldColumns lead fields ++ (below ++ root).map Prod.fst).Nodup)
      (rest : Threads done (leadFields lead fields ++ below) root steps out) :
    Threads done ((column, .struct fields) :: below) root
      (.unnest column lead (fields.map Prod.fst) :: steps) out

namespace Threads

variable {done out : List String} {below root : Fields} {steps : List Step}

/-- Without the distinction it is an unraveling. -/
theorem unravels (h : Threads done below root steps out) :
    Unravels done (below ++ root) steps out := by
  induction h with
  | nil done => exact .nil done
  | enter _ _ ih => exact ih
  | @aside done fields root _ _ distinct _ ih =>
    refine .struct ?_ ?_
    · rw [fieldColumns_empty, List.append_assoc, ← List.map_append]
      exact distinct
    · rw [leadFields_empty]
      exact ih
  | scalar _ ih => exact .scalar ih
  | list _ ih => exact .list ih
  | struct distinct _ ih =>
    rw [List.append_assoc] at ih
    exact .struct distinct ih

/-- Columns that hold scalars are done without any steps. -/
theorem unravels_scalars (done : List String) {pending : Fields}
    (hscalars : ∀ field ∈ pending, ∃ datatype, field.2 = .scalar datatype) :
    Unravels done pending [] (done ++ pending.map Prod.fst) := by
  induction pending generalizing done with
  | nil =>
    rw [List.map_nil, List.append_nil]
    exact .nil done
  | cons field pending ih =>
    obtain ⟨name, type⟩ := field
    obtain ⟨⟨datatype, rfl⟩, hpending⟩ := List.forall_mem_cons.mp hscalars
    rw [List.map_cons, List.append_cons]
    exact .scalar (ih _ hpending)

/-- And that is the only way. -/
private theorem eq_nil_of_unravels_scalars {pending : Fields}
    (hscalars : ∀ field ∈ pending, ∃ datatype, field.2 = .scalar datatype)
    (h : Unravels done pending steps out) : steps = [] ∧ out = done ++ pending.map Prod.fst := by
  induction h with
  | nil done => exact ⟨rfl, (List.append_nil done).symm⟩
  | scalar _ ih =>
    obtain ⟨hsteps, hout⟩ := ih (List.forall_mem_cons.mp hscalars).2
    rw [List.append_assoc] at hout
    exact ⟨hsteps, hout⟩
  | list => exact absurd (hscalars _ List.mem_cons_self) nofun
  | struct => exact absurd (hscalars _ List.mem_cons_self) nofun

/-- **One entry after the other.** What takes the columns below an entry apart, in front of some
columns that are left for later, can be followed by what threads the entries of their names. -/
theorem of_unravels {pending later : Fields}
    (hlater : ∀ field ∈ later, ∃ datatype, field.2 = .scalar datatype)
    (h : Unravels done pending steps out) :
    ∀ {below root : Fields} {done' last : List String} {more : List Step},
      pending = below ++ later → out = done' ++ later.map Prod.fst →
      root.map Prod.fst = later.map Prod.fst → Threads done' [] root more last →
      Threads done below root (steps ++ more) last := by
  -- where nothing is pending below the entry, the unraveling is at its end
  have hend : ∀ {done out : List String} {pending : Fields} {steps : List Step},
      Unravels done pending steps out → ∀ {root : Fields} {done' last : List String}
        {more : List Step}, pending = later → out = done' ++ later.map Prod.fst →
        Threads done' [] root more last → Threads done [] root (steps ++ more) last := by
    rintro done out pending steps h root done' last more rfl hout hmore
    obtain ⟨rfl, hdone⟩ := eq_nil_of_unravels_scalars hlater h
    obtain rfl : done' = done := List.append_cancel_right (hout.symm.trans hdone)
    exact hmore
  induction h with
  | nil done =>
    intro below root done' last more hpending hout hroot hmore
    obtain ⟨rfl, hnone⟩ := List.append_eq_nil_iff.mp hpending.symm
    exact hend (.nil done) hnone.symm hout hmore
  | scalar rest ih =>
    intro below root done' last more hpending hout hroot hmore
    cases below with
    | nil => exact hend (.scalar rest) hpending hout hmore
    | cons field below =>
      obtain ⟨rfl, rfl⟩ := List.cons.inj hpending
      exact .scalar (ih rfl hout hroot hmore)
  | list rest ih =>
    intro below root done' last more hpending hout hroot hmore
    cases below with
    | nil => exact hend (.list rest) hpending hout hmore
    | cons field below =>
      obtain ⟨rfl, rfl⟩ := List.cons.inj hpending
      exact .list (ih rfl hout hroot hmore)
  | struct distinct rest ih =>
    intro below root done' last more hpending hout hroot hmore
    cases below with
    | nil => exact hend (.struct distinct rest) hpending hout hmore
    | cons field below =>
      obtain ⟨rfl, rfl⟩ := List.cons.inj hpending
      refine .struct ?_ (ih (List.append_assoc _ _ _).symm hout hroot hmore)
      rw [List.map_append, hroot, ← List.map_append]
      exact distinct

end Threads

namespace Unfolding

variable {separator : String} {strategy : Strategy}

/-- At the root, where the path is empty, no lead but the empty one is tried. -/
theorem eq_empty_of_chooseLead {columns : List String} {column lead : String} {fields : Fields}
    (h : chooseLead columns column fields (leadsOf separator strategy "") = .ok lead) :
    lead = "" := by
  have hmem := (of_chooseLead h).1
  cases strategy <;> simpa [leadsOf, pathLead] using hmem

/-- An entry that is unfolded stands in front of the entries that are threaded behind it. Of these
only the names matter for its steps. -/
private theorem Unfolds.threads {done rest : List String} {entry : String × Tree}
    {leaves : List (String × Datatype)} {first : Unfolding}
    (h : Unfolds done rest [entry] leaves first) (whole : ¬Tree.Wrapped [entry]) {root : Fields}
    {steps : List Step} {out : List String} (hroot : root.map Prod.fst = rest)
    (hbehind : Threads (done ++ first.leaves.map Leaf.column) [] root steps out) :
    Threads done [] (entry :: root) (first.steps ++ steps) out := by
  refine .enter whole ?_
  have hlater : ∀ field ∈ root.map fun field => (field.1, Tree.scalar .utf8),
      ∃ datatype, field.2 = .scalar datatype := by
    rintro _ hmem
    obtain ⟨field, -, rfl⟩ := List.mem_map.mp hmem
    exact ⟨.utf8, rfl⟩
  have hnames : (root.map fun field => (field.1, Tree.scalar .utf8)).map Prod.fst =
      root.map Prod.fst := by
    rw [List.map_map]
    rfl
  have hsteps := h.unravels (hnames.trans hroot) (Threads.unravels_scalars _ hlater)
  rw [List.append_nil] at hsteps
  exact Threads.of_unravels hlater hsteps rfl rfl hnames.symm hbehind

/-- **Plans are threaded.** What the planner makes of the entries of a record threads them, in front
of whatever threads the entries behind. -/
theorem ofFields_threads : ∀ (fields : List (String × Tree)) {done rest : List String}
    {unfolding : Unfolding},
    ofFields separator strategy (done ++ fields.map Prod.fst ++ rest) "" "" fields = .ok unfolding →
      (done ++ fields.map Prod.fst ++ rest).Nodup → Tree.FieldNamesDistinct fields →
      ∀ (root : Fields) (steps : List Step) (out : List String), root.map Prod.fst = rest →
        Threads (done ++ unfolding.leaves.map Leaf.column) [] root steps out →
        Threads done [] (fields ++ root) (unfolding.steps ++ steps) out
  | [], done, rest, unfolding, h, _, _ => by
    intro root steps out _ hbehind
    rw [ofFields] at h
    obtain rfl := Except.ok.inj h
    simpa using hbehind
  | (name, type) :: fields, done, rest, unfolding, h, hdistinct, ⟨htype, hnames⟩ => by
    intro root steps out hroot hbehind
    have hcons : done ++ ((name, type) :: fields).map Prod.fst ++ rest =
        done ++ name :: (fields.map Prod.fst ++ rest) := by
      rw [List.map_cons, List.append_assoc]
      rfl
    rw [hcons] at h hdistinct
    rw [ofFields, String.empty_append, joinPath_anonymous, joinPath_singleton,
      bind_eq_ok_iff] at h
    obtain ⟨first, hfirst, h⟩ := h
    obtain ⟨others, hothers, h⟩ := bind_eq_ok_iff.mp h
    obtain rfl := Except.ok.inj h
    rw [List.map_append, ← List.append_assoc] at hbehind
    rw [List.append_assoc]
    -- the entries behind the first one are threaded behind what it leaves
    have hpath : ofTree separator strategy (done ++ name :: (fields.map Prod.fst ++ rest)) name
        (joinPath separator [name].reverse) type = .ok first := by
      rwa [List.reverse_singleton, joinPath_singleton]
    have hunfolds := (ofTree_ends type [name] hdistinct htype).of_eq_ok hpath
    have hcolumns := hunfolds.distinct
    rw [hunfolds.columns, ← List.append_assoc] at hothers hcolumns
    have hrest := ofFields_threads fields hothers hcolumns hnames root steps out hroot hbehind
    have hnext : (fields ++ root).map Prod.fst = fields.map Prod.fst ++ rest := by
      rw [List.map_append, hroot]
    by_cases hwrapped : Tree.Wrapped [(name, type)]
    · obtain ⟨inner, hinner⟩ := hwrapped
      obtain ⟨rfl, rfl⟩ := Prod.mk.inj (List.mem_singleton.mp hinner)
      rw [ofTree, bind_eq_ok_iff] at hfirst
      obtain ⟨lead, hlead, hfirst⟩ := hfirst
      have hfree := (chooseLead_ends _ hdistinct htype.1).of_eq_ok hlead
      obtain rfl := eq_empty_of_chooseLead hlead
      rw [fieldColumns_empty] at hfree hfirst
      rw [replaceColumn_middle hdistinct] at hfirst
      obtain ⟨within, hwithin, hfirst⟩ := bind_eq_ok_iff.mp hfirst
      obtain rfl := Except.ok.inj hfirst
      have hwhole : (done ++ (inner ++ (fields ++ root)).map Prod.fst).Nodup := by
        rw [List.map_append, hnext, ← List.append_assoc]
        exact hfree
      exact .aside hwhole (ofFields_threads inner hwithin hfree htype.2 _ _ out hnext hrest)
    · exact hunfolds.threads hwrapped hnext hrest

end Unfolding

end NestedRecords
