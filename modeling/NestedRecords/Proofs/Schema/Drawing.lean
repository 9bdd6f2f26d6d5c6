import NestedRecords.Schema.Error

/-!
# Errors that can be shown

A problem becomes an error when its diagnostic can be drawn, which takes a column for its carets.
There is none only at the very start of a text that begins with a line feed
(`Issue.column_locate_eq_zero_iff`), so in all other texts a rejection is a worded error of the kind
of its problem.
-/

namespace NestedRecords

open CodeUnit

namespace Issue

theorem lineStart_le (source : Text) (start : Nat) : lineStart source start ≤ max start 1 := by
  have hlength : (source.take (max start 1)).length ≤ max start 1 := by
    rw [List.length_take]
    exact Nat.min_le_left _ _
  exact Nat.le_trans (Nat.sub_le _ _) hlength

/-- **Issues without a column.** Only at the start of a text that begins with a line feed is there
no column. -/
theorem column_locate_eq_zero_iff {source : Text} {offset : Int} :
    (locate source offset).column = 0 ↔ offset ≤ 0 ∧ source.head? = some lineFeed := by
  rw [locate]
  cases source with
  | nil => simp [lineStart]
  | cons u rest =>
    rcases Nat.eq_zero_or_pos offset.toNat with hstart | hstart
    · have hoffset : offset ≤ 0 := Int.toNat_eq_zero.mp hstart
      by_cases hu : u = lineFeed <;> simp [hstart, hoffset, hu, lineStart]
    · have hoffset : ¬offset ≤ 0 := by omega
      have hle := lineStart_le (u :: rest) (min offset.toNat (u :: rest).length)
      simp only [hoffset, false_and, iff_false, List.length_cons] at hle ⊢
      omega

end Issue

/-- The diagnostic of an error is that of its issue. -/
theorem SchemaFailure.diagnostic_of_locate {kind : SchemaErrorKind} {reason : String}
    {source : Text} {offset : Int} {sourceName : Option String} {error : SchemaError}
    (h : locate kind reason source offset sourceName = .invalid error) :
    error.issue.diagnostic source = .ok error.diagnostic := by
  simp only [locate] at h
  split at h
  · rename_i hdiagnostic
    obtain rfl := invalid.inj h
    exact hdiagnostic
  · contradiction

/-- A rejection is an error of the kind of its problem, at the place of its site, unless it stands
at the start of a text that begins with a line feed. -/
theorem Rejection.exists_failure_eq_invalid (r : Rejection) {source : Text}
    (h : source.head? = some lineFeed → 0 < r.site.start.offset) (sourceName : Option String) :
    ∃ e, r.failure source sourceName = .invalid e ∧ e.kind = r.problem.kind ∧
      e.issue = .locate source r.site.start.offset := by
  have hcolumn : (Issue.locate source r.site.start.offset).column ≠ 0 := fun hzero => by
    obtain ⟨hoffset, hhead⟩ := Issue.column_locate_eq_zero_iff.mp hzero
    exact absurd (h hhead) (Int.not_lt.mpr hoffset)
  simp only [failure, SchemaFailure.locate, Issue.diagnostic, if_neg hcolumn]
  exact ⟨_, rfl, rfl, rfl⟩

/-- In a text that does not begin with a line feed, a rejection is an error of the kind of its
problem. -/
theorem Rejection.failure_eq_invalid (r : Rejection) {source : Text}
    (h : source.head? ≠ some lineFeed) (sourceName : Option String) :
    ∃ e, r.failure source sourceName = .invalid e ∧ e.kind = r.problem.kind := by
  obtain ⟨e, hfailure, hkind, -⟩ :=
    r.exists_failure_eq_invalid (fun hhead => absurd hhead h) sourceName
  exact ⟨e, hfailure, hkind⟩

end NestedRecords
