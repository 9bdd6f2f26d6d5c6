import NestedRecords.Proofs.Unpack.Correctness

/-!
# Unpacking what arrives spread out

The correctness of unpacking, without its condition on the root of the schema. How an anonymous
struct arrives is settled by the records together: as a whole if one of them gives a column without
a name, and spread out otherwise. So `Tree.arrival` is what the records flatten by
(`unpackRecords_ends`).

Only where an anonymous struct comes spread out something is asked of the plan, which is to be
clear.
-/

namespace NestedRecords

open NestedRecords.Tree

/-! ### Live steps of a plan -/

namespace Plan

variable {schema : Schema} {strategy : Strategy} {plan : Plan}

/-- The plans of coherent schemas are threaded. -/
theorem threads_of_ofSchema (hcoherent : schema.Coherent)
    (hplan : Plan.ofSchema schema strategy = .ok plan) :
    plan.fields = schema.fields ∧
      Threads [] [] schema.fields plan.steps (plan.leaves.map Leaf.column) := by
  obtain ⟨hsiblings, hnames⟩ := hcoherent.names_distinct
  obtain ⟨unfolding, hunfolding, hplan⟩ := bind_eq_ok_iff.mp hplan
  obtain ⟨rename, -, hplan⟩ := bind_eq_ok_iff.mp hplan
  obtain rfl := Except.ok.inj hplan
  have hcolumns : [] ++ schema.fields.map Prod.fst ++ [] = schema.fields.map Prod.fst := by simp
  rw [← hcolumns] at hunfolding hsiblings
  have hthreads := Unfolding.ofFields_threads schema.fields hunfolding hsiblings hnames [] []
    (unfolding.leaves.map Leaf.column) rfl (.nil _)
  rw [List.append_nil, List.append_nil] at hthreads
  exact ⟨rfl, hthreads⟩

/-- A clear plan has live steps for an anonymous struct that arrives spread out. -/
theorem exists_live_of_clear (hcoherent : schema.Coherent)
    (hplan : Plan.ofSchema schema strategy = .ok plan) (hwrapped : Wrapped schema.fields)
    (hclear : plan.Clear) :
    ∃ live, Unravels [] (unwrapFields schema.fields) live (plan.leaves.map Leaf.column) ∧
      Agree plan.spreadColumns plan.steps live := by
  obtain ⟨hfields, hthreads⟩ := threads_of_ofSchema hcoherent hplan
  obtain ⟨last, hlast⟩ := Option.isSome_iff_exists.mp hclear.passes
  have hawaits : Awaits [] [] schema.fields plan.spreadColumns := by
    refine ⟨hwrapped, hcoherent.names_distinct.1, ?_, ?_⟩
    · exact hfields ▸ hclear.distinct
    · rw [spreadColumns, hfields]
      rfl
  exact hthreads.exists_live hawaits hlast

/-- **Clear plans for records.** If the schema has an anonymous struct at the root and the records
hold it spread out, the plan is clear. -/
def ClearFor (plan : Plan) (records : List Value) : Prop :=
  Wrapped plan.fields → "" ∉ (Frame.ofRecords records).columns → plan.Clear

/-- **Live steps for records.** Whichever way the records arrive, a plan that is clear for them has
live steps for it. -/
theorem exists_live_of_clearFor (hcoherent : schema.Coherent)
    (hplan : Plan.ofSchema schema strategy = .ok plan) {records : List Value}
    (hclear : plan.ClearFor records) {fields : Fields}
    (harrival : arrival (Frame.ofRecords records).columns schema.fields = fields) :
    (fields.map Prod.fst).Nodup ∧
      ∃ live, Unravels [] fields live (plan.leaves.map Leaf.column) ∧
        Agree ((fields.map Prod.fst).filter (· ∈ (Frame.ofRecords records).columns))
          plan.steps live := by
  have hexecutable : plan.Executable schema := (ofSchema_ends hcoherent strategy).of_eq_ok hplan
  by_cases hwhole : schema.fields = fields
  · subst hwhole
    exact ⟨hcoherent.names_distinct.1, _, hexecutable.unravels, Agree.refl _ _⟩
  · have hmem : "" ∉ (Frame.ofRecords records).columns := fun hmem =>
      hwhole (by rw [← harrival, arrival_of_mem hmem])
    have hwrapped : Wrapped schema.fields := Classical.byContradiction fun hwrapped =>
      hwhole (by rw [← harrival, arrival_eq_self hwrapped])
    obtain rfl : unwrapFields schema.fields = fields := by
      rw [← harrival, arrival_of_notMem hmem]
    have hspread : plan.Clear := hclear (hexecutable.fields ▸ hwrapped) hmem
    obtain ⟨live, hlive, hagree⟩ := exists_live_of_clear hcoherent hplan hwrapped hspread
    refine ⟨hexecutable.fields ▸ hspread.distinct, live, hlive, ?_⟩
    -- a column without a name is not there, so all columns are spread ones
    refine fun frame hframe => hagree frame fun name hname => ?_
    obtain ⟨hin, hpresent⟩ := List.mem_filter.mp (hframe hname)
    rw [spreadColumns, hexecutable.fields]
    refine List.mem_filter.mpr ⟨hin, decide_eq_true ?_⟩
    rintro rfl
    exact hmem (of_decide_eq_true hpresent)

end Plan

/-! ### Unpacking -/

/-- **Unpacking records as they arrive.** With a plan that is clear for the records, unpacking fails
on a value of another shape, or all records fit the fields as they arrive and the result are their
rows. -/
theorem unpackRecords_ends (source : Text) (options : UnpackOptions) {schema : Schema}
    {plan : Plan} (hschema : compile source options.toCompileOptions = .ok schema)
    (hplan : Plan.ofSchema schema options.strategy = .ok plan) {records : List Value}
    (hclear : plan.ClearFor records) {fields : Fields}
    (harrival : arrival (Frame.ofRecords records).columns schema.fields = fields) :
    Ends (fun error => (∃ misfit : FrameError, misfit.IsMisfit ∧ error = .frame misfit) ∧
        ¬∀ record ∈ records, FieldsFit fields record.entries)
      (fun rows => (∀ record ∈ records, FieldsFit fields record.entries) ∧
        rows = (records.flatMap fun record => fieldRows fields record.entries).map
          fun values => MemberOrder.arrangeBy Prod.fst (schema.columns.zip values))
      (unpackRecords source records options) := by
  have hcoherent : schema.Coherent := coherent_of_compile hschema
  have hexecutable : plan.Executable schema :=
    (Plan.ofSchema_ends hcoherent options.strategy).of_eq_ok hplan
  obtain ⟨hnames, live, hlive, hagree⟩ :=
    Plan.exists_live_of_clearFor hcoherent hplan hclear harrival
  have hends := hexecutable.execute_ends_of_agree hcoherent.columns_nodup harrival hnames hlive
    hagree
  rw [unpackRecords_eq hschema hplan]
  generalize plan.execute Frame.engine (.ofRecords records) = executed at hends ⊢
  cases hends with
  | error h => exact .error ⟨⟨_, h.1, rfl⟩, h.2⟩
  | ok h => exact .ok h

end NestedRecords
