import NestedRecords.Proofs.Token.Pieces

/-!
# Slices of slices

The bounds of a slice may be any integers. They are clamped to the fragment, the end also from below
by the start, so that a slice begins and ends at two distances from the start of the fragment
(`Fragment.slice_eq`). A slice of a slice is clamped twice, against different fragments. It is a
slice of the first fragment all the same, between distances that come of the inner ones when the
outer one is added. No place is lost on the way: walking through a text and then through what is
left of it is walking through the whole of it.
-/

namespace NestedRecords

namespace Fragment

/-- The number closest to a value between two others. -/
def clamp (value low high : Int) : Int := min (max value low) high

/-- How many units of a fragment are in front of a slice. -/
def sliceStart (f : Fragment) (first : Int) : Int := clamp first 0 f.text.length

/-- How many units of a fragment are in front of the end of a slice. -/
def sliceEnd (f : Fragment) (first : Int) (last : Option Int) : Int :=
  clamp (last.getD f.text.length) (f.sliceStart first) f.text.length

section Bounds

variable (f : Fragment) (first : Int) (last : Option Int)

theorem sliceStart_nonneg : 0 ≤ f.sliceStart first := by
  unfold sliceStart clamp
  omega

theorem sliceStart_le_sliceEnd : f.sliceStart first ≤ f.sliceEnd first last := by
  unfold sliceEnd sliceStart clamp
  omega

theorem sliceEnd_le : f.sliceEnd first last ≤ f.text.length := by
  unfold sliceEnd clamp
  omega

/-- A slice is what stands between its clamped bounds. -/
theorem slice_eq : f.slice first last = (f.drop (f.sliceStart first).toNat).take
    (f.sliceEnd first last - f.sliceStart first).toNat := by
  unfold slice sliceEnd sliceStart clamp
  cases last with
  | none =>
    dsimp only [Option.getD_none]
    congr 2 <;> omega
  | some bound =>
    dsimp only [Option.getD_some]
    congr 2 <;> omega

theorem length_text_slice :
    ((f.slice first last).text.length : Int) = f.sliceEnd first last - f.sliceStart first := by
  have hstart := f.sliceStart_nonneg first
  have horder := f.sliceStart_le_sliceEnd first last
  have hend := f.sliceEnd_le first last
  rw [slice_eq, take, text_drop, List.length_take, List.length_drop]
  omega

/-- Walking through a piece goes on where the walk to the piece has ended, and stops where the piece
does. -/
theorem advance_take_drop (front size : Nat) (count : Int) :
    ((f.drop front).take size).advance count = f.advance (front + min count.toNat size : Nat) := by
  have hwalk : f.text.take (front + min count.toNat size) =
      f.text.take front ++ ((f.text.drop front).take size).take count.toNat := by
    rw [List.take_take, List.take_add]
  rw [advance, advance, Int.toNat_natCast, hwalk, Position.after_append]
  rfl

end Bounds

/-- **Slices of slices.** A slice of a slice is the slice of the whole fragment whose bounds are
those of the inner one, clamped to the outer one, and as far behind the start of the fragment as the
outer one begins. A walk through a slice leads where the walk through the whole fragment does that
is longer by as much, if it is clamped to the slice as well. -/
theorem slice_slice (f : Fragment) (first first' : Int) (last last' : Option Int) :
    let low := clamp first 0 f.text.length
    let size := clamp (last.getD f.text.length) low f.text.length - low
    let low' := clamp first' 0 size
    let high' := clamp (last'.getD size) low' size
    (f.slice first last).slice first' last' = f.slice (low + low') (some (low + high')) ∧
      ∀ count, (f.slice first last).advance count = f.advance (low + clamp count 0 size) := by
  intro low size low' high'
  let cut := f.slice first last
  have hcut : cut = (f.drop low.toNat).take size.toNat := f.slice_eq first last
  have hlength : (cut.text.length : Int) = size := f.length_text_slice first last
  have hstart : cut.sliceStart first' = low' := by
    rw [sliceStart, hlength]
  have hend : cut.sliceEnd first' last' = high' := by
    rw [sliceEnd, hstart, hlength]
  have hlow : 0 ≤ low := f.sliceStart_nonneg first
  have hsize : 0 ≤ size := Int.sub_nonneg.mpr (f.sliceStart_le_sliceEnd first last)
  have hfits : size ≤ f.text.length - low := Int.sub_le_sub_right (f.sliceEnd_le first last) low
  constructor
  · have hlow' : 0 ≤ low' := hstart ▸ cut.sliceStart_nonneg first'
    have hhigh' : low' ≤ high' := hstart ▸ hend ▸ cut.sliceStart_le_sliceEnd first' last'
    have hinside : high' ≤ size := hend ▸ hlength ▸ cut.sliceEnd_le first' last'
    -- shifted, the inner bounds are inside the fragment, so that clamping them changes nothing
    have hstart' : f.sliceStart (low + low') = low + low' := by
      unfold sliceStart clamp
      omega
    have hend' : f.sliceEnd (low + low') (some (low + high')) = low + high' := by
      unfold sliceEnd
      rw [hstart', Option.getD_some]
      unfold clamp
      omega
    change cut.slice first' last' = _
    rw [slice_eq cut, slice_eq f (low + low'), hstart, hend, hstart', hend', hcut, drop_take,
      drop_drop, take_take]
    congr 2 <;> omega
  · intro count
    have hclamped : low + clamp count 0 size = (low.toNat + min count.toNat size.toNat : Nat) := by
      unfold clamp
      omega
    change cut.advance count = _
    rw [hcut, advance_take_drop, hclamped]

end Fragment

end NestedRecords
