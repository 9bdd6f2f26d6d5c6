import NestedRecords.Text.Class

/-!
# Words, gaps and fillers

A schema text is made of words and brackets with other units around them: gaps inside an entry,
fillers between entries. What keeps these apart is that the classes of units are disjoint, so that
a run of one class ends where a unit of another one stands. All of it comes down to code points,
and the lemmas on classes say which.

The text of an identifier is a word, and the string of a word is an identifier.
-/

namespace NestedRecords

open CodeUnit

/-! ### Runs -/

/-- A run of a class is taken whole if what follows it is not of the class. -/
theorem takeWhile_append_eq {α : Type} {p : α → Bool} {run rest : List α}
    (hrun : ∀ u ∈ run, p u = true) (hrest : ∀ u ∈ rest.head?, p u = false) :
    (run ++ rest).takeWhile p = run := by
  rw [List.takeWhile_append_of_pos hrun]
  cases rest with
  | nil => simp
  | cons u rest => simp [hrest u rfl]

/-- And it is dropped whole. -/
theorem dropWhile_append_eq {α : Type} {p : α → Bool} {run rest : List α}
    (hrun : ∀ u ∈ run, p u = true) (hrest : ∀ u ∈ rest.head?, p u = false) :
    (run ++ rest).dropWhile p = rest := by
  rw [List.dropWhile_append_of_pos hrun]
  cases rest with
  | nil => rfl
  | cons u rest => simp [hrest u rfl]

namespace CodeUnit

/-! ### Classes of units -/

variable {u : CodeUnit}

theorem eq_ofChar_iff {c : Char} (hc : c.toNat < 0x10000) : u = ofChar c ↔ u.toNat = c.toNat := by
  have hval : (ofChar c).toNat = c.toNat := by
    rw [ofChar, UInt16.toNat_ofNat']
    omega
  rw [← UInt16.toNat_inj, hval]

private theorem any_ofChar_iff {cs : List Char} (hcs : cs.all (·.toNat < 0x10000) = true) :
    cs.any (ofChar · == u) = true ↔ ∃ c ∈ cs, u.toNat = c.toNat := by
  simp only [List.any_eq_true, beq_iff_eq]
  refine exists_congr fun c => and_congr_right fun hc => ?_
  rw [eq_comm, eq_ofChar_iff (of_decide_eq_true (List.all_eq_true.mp hcs c hc))]

theorem isWord_iff : u.isWord = true ↔ 48 ≤ u.toNat ∧ u.toNat ≤ 57 ∨
    65 ≤ u.toNat ∧ u.toNat ≤ 90 ∨ u.toNat = 95 ∨ 97 ≤ u.toNat ∧ u.toNat ≤ 122 := by
  simp [isWord, or_assoc]

theorem isOpening_iff : u.isOpening = true ↔
    u.toNat = 40 ∨ u.toNat = 91 ∨ u.toNat = 123 ∨ u.toNat = 60 := by
  rw [isOpening, any_ofChar_iff (by decide)]
  simp

theorem isClosing_iff : u.isClosing = true ↔
    u.toNat = 41 ∨ u.toNat = 93 ∨ u.toNat = 125 ∨ u.toNat = 62 := by
  rw [isClosing, any_ofChar_iff (by decide)]
  simp

theorem isGap_iff : u.isGap = true ↔ u.toNat = 32 ∨ u.toNat = 9 := by
  rw [isGap, Bool.or_eq_true, beq_iff_eq, beq_iff_eq, eq_ofChar_iff (by decide),
    eq_ofChar_iff (by decide)]
  rfl

theorem isFiller_iff : u.isFiller = true ↔ u.toNat = 44 ∨ u.isBlank = true := by
  rw [isFiller, Bool.or_eq_true, beq_iff_eq, eq_ofChar_iff (by decide)]
  rfl

/-- A filler is a comma, or white space of ASCII, or lies beyond ASCII. -/
theorem toNat_of_isFiller (h : u.isFiller = true) :
    u.toNat = 44 ∨ 9 ≤ u.toNat ∧ u.toNat ≤ 13 ∨ u.toNat = 32 ∨ 160 ≤ u.toNat := by
  rw [isFiller_iff] at h
  simp [isBlank, blankRanges] at h
  omega

theorem isFiller_of_isGap (h : u.isGap = true) : u.isFiller = true := by
  rw [isFiller_iff]
  rw [isGap_iff] at h
  right
  simp [isBlank, blankRanges]
  omega

/-- The units that a token may begin with. -/
def isStart (u : CodeUnit) : Bool := u.isWord || u.isOpening || u.isClosing

theorem isStart_iff : u.isStart = true ↔
    u.isWord = true ∨ u.isOpening = true ∨ u.isClosing = true := by
  simp [isStart, or_assoc]

/-- Where a token begins, no filler stands. -/
theorem isFiller_eq_false_of_isStart (h : u.isStart = true) : u.isFiller = false := by
  rw [isStart_iff, isWord_iff, isOpening_iff, isClosing_iff] at h
  refine Bool.eq_false_iff.mpr fun hfiller => ?_
  have hrange := toNat_of_isFiller hfiller
  omega

theorem isWord_eq_false_of_isFiller (h : u.isFiller = true) : u.isWord = false := by
  have hrange := toNat_of_isFiller h
  rw [Bool.eq_false_iff, ne_eq, isWord_iff]
  omega

theorem isWord_eq_false_of_isGap (h : u.isGap = true) : u.isWord = false :=
  isWord_eq_false_of_isFiller (isFiller_of_isGap h)

theorem isGap_eq_false_of_isStart (h : u.isStart = true) : u.isGap = false :=
  Bool.eq_false_iff.mpr fun hgap =>
    absurd (isFiller_of_isGap hgap) (by simp [isFiller_eq_false_of_isStart h])

theorem isWord_eq_false_of_isOpening (h : u.isOpening = true) : u.isWord = false := by
  rw [Bool.eq_false_iff, ne_eq, isWord_iff]
  rw [isOpening_iff] at h
  omega

theorem isWord_eq_false_of_isClosing (h : u.isClosing = true) : u.isWord = false := by
  rw [Bool.eq_false_iff, ne_eq, isWord_iff]
  rw [isClosing_iff] at h
  omega

theorem isOpening_eq_false_of_isClosing (h : u.isClosing = true) : u.isOpening = false := by
  rw [Bool.eq_false_iff, ne_eq, isOpening_iff]
  rw [isClosing_iff] at h
  omega

end CodeUnit

namespace Text

/-! ### Words and identifiers -/

/-- A text that is one word. -/
def IsWord (t : Text) : Prop := t ≠ [] ∧ ∀ u ∈ t, u.isWord = true

-- Units are finitely many, so the instances say that only those in the text are looked at.
instance (t : Text) : Decidable (IsWord t) :=
  @instDecidableAnd _ _ inferInstance (List.decidableBAll (CodeUnit.isWord · = true) t)

/-- A text of spaces and tabs, as they may stand inside an entry. -/
def IsGap (t : Text) : Prop := ∀ u ∈ t, u.isGap = true

instance (t : Text) : Decidable (IsGap t) := List.decidableBAll (CodeUnit.isGap · = true) t

/-- A text of commas and white space, as they may stand between tokens. -/
def IsFiller (t : Text) : Prop := ∀ u ∈ t, u.isFiller = true

instance (t : Text) : Decidable (IsFiller t) := List.decidableBAll (CodeUnit.isFiller · = true) t

theorem ofString_append (s t : String) : ofString (s ++ t) = ofString s ++ ofString t := by
  rw [ofString, ofString, ofString, String.toList_append, List.flatMap_append]

/-- In the basic plane a string has a unit for each of its characters. -/
theorem ofString_eq_map {s : String} (h : ∀ c ∈ s.toList, c.toNat < 0x10000) :
    ofString s = s.toList.map ofChar := by
  rw [ofString, List.map_eq_flatMap, List.flatMap_def, List.flatMap_def]
  exact congrArg List.flatten (List.map_congr_left fun c hc => if_pos (h c hc))

end Text

/-- A name of letters and digits of ASCII and underscores. -/
def IsIdentifier (name : String) : Prop :=
  name ≠ "" ∧ ∀ c ∈ name.toList, c.isAlphanum = true ∨ c = '_'

instance (name : String) : Decidable (IsIdentifier name) :=
  @instDecidableAnd _ _ inferInstance
    (List.decidableBAll (fun c => c.isAlphanum = true ∨ c = '_') name.toList)

private theorem isAlphanum_or_iff {c : Char} : c.isAlphanum = true ∨ c = '_' ↔
    48 ≤ c.toNat ∧ c.toNat ≤ 57 ∨ 65 ≤ c.toNat ∧ c.toNat ≤ 90 ∨ c.toNat = 95 ∨
      97 ≤ c.toNat ∧ c.toNat ≤ 122 := by
  have hunderscore : c = '_' ↔ c.toNat = 95 := by
    rw [← Char.toNat_inj]
    rfl
  have halphanum : c.isAlphanum = (decide (65 ≤ c.val ∧ c.val ≤ 90) ||
      (decide (97 ≤ c.val) && decide (c.val ≤ 122)) ||
      (decide (48 ≤ c.val) && decide (c.val ≤ 57))) := rfl
  rw [hunderscore, halphanum]
  simp [UInt32.le_iff_toNat_le]
  omega

/-- The text of an identifier is a word. -/
theorem IsIdentifier.isWord {name : String} (h : IsIdentifier name) :
    (Text.ofString name).IsWord := by
  have hplane : ∀ c ∈ name.toList, c.toNat < 0x10000 := by
    intro c hc
    have hrange := isAlphanum_or_iff.mp (h.2 c hc)
    omega
  rw [Text.ofString_eq_map hplane]
  constructor
  · exact fun hempty => h.1 (String.toList_eq_nil_iff.mp (List.map_eq_nil_iff.mp hempty))
  · intro u hu
    obtain ⟨c, hc, rfl⟩ := List.mem_map.mp hu
    have hrange := isAlphanum_or_iff.mp (h.2 c hc)
    have hval : (ofChar c).toNat = c.toNat := (eq_ofChar_iff (by omega)).mp rfl
    rw [isWord_iff, hval]
    exact hrange

/-- The string of a word is an identifier. -/
theorem Text.IsWord.isIdentifier {t : Text} (h : t.IsWord) : IsIdentifier t.toString := by
  have halone : ∀ u : CodeUnit, u.isWord = true → u.alone = Char.ofNat u.toNat ∧
      u.isLead = false := by
    intro u hu
    rw [isWord_iff] at hu
    have hlead : u.isLead = false := by
      simp [isLead]
      omega
    have htrail : u.isTrail = false := by
      simp [isTrail]
      omega
    exact ⟨by simp [alone, hlead, htrail], hlead⟩
  have hchars : ∀ t : Text, (∀ u ∈ t, u.isWord = true) →
      t.toChars = t.map fun u => Char.ofNat u.toNat := by
    intro t ht
    induction t with
    | nil => rfl
    | cons u rest ih =>
      obtain ⟨hu, hrest⟩ := List.forall_mem_cons.mp ht
      rw [toChars_alone (halone u hu).2, (halone u hu).1, ih hrest, List.map_cons]
  constructor
  · intro hempty
    have hnone : t.toChars = [] := String.ofList_eq_empty_iff.mp hempty
    rw [hchars t h.2] at hnone
    exact h.1 (List.map_eq_nil_iff.mp hnone)
  · intro c hc
    rw [Text.toString, String.toList_ofList, hchars t h.2] at hc
    obtain ⟨u, hu, rfl⟩ := List.mem_map.mp hc
    have hrange := isWord_iff.mp (h.2 u hu)
    have hvalid : u.toNat.isValidChar := by
      unfold Nat.isValidChar
      omega
    have hval : (Char.ofNat u.toNat).toNat = u.toNat := by
      rw [Char.ofNat, dif_pos hvalid]
      rfl
    rw [isAlphanum_or_iff, hval]
    exact hrange

end NestedRecords
