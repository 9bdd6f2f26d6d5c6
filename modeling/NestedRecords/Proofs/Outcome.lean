/-!
# Computations that may fail

When a computation in several steps succeeds, every step has; these lemmas take such a
computation apart. `Ends` goes the other way and puts together what is known of the steps: which
errors a computation can end in, and what its result is like otherwise. All of it is about
`Except` alone.
-/

namespace NestedRecords

variable {ε α β : Type}

/-- A step that has succeeded hands its result on. -/
theorem ok_bind (a : α) (f : α → Except ε β) : (Except.ok a >>= f) = f a := rfl

/-- Two steps succeed when the first one does and the second one does on its result. -/
theorem bind_eq_ok_iff {x : Except ε α} {f : α → Except ε β} {b : β} :
    (x >>= f) = .ok b ↔ ∃ a, x = .ok a ∧ f a = .ok b := by
  cases x with
  | error e => simp [bind, Except.bind]
  | ok a => simp [bind, Except.bind]

theorem map_eq_ok_iff {f : α → β} {x : Except ε α} {b : β} :
    f <$> x = .ok b ↔ ∃ a, x = .ok a ∧ f a = b := by
  cases x with
  | error e => simp [Functor.map, Except.map]
  | ok a => simp [Functor.map, Except.map]

/-- A result that is handed on in another form is there all the same. -/
theorem exists_map_eq_ok_iff {f : α → β} {x : Except ε α} :
    (∃ b, f <$> x = .ok b) ↔ ∃ a, x = .ok a := by
  simp only [map_eq_ok_iff]
  exact ⟨fun ⟨_, a, ha, _⟩ => ⟨a, ha⟩, fun ⟨a, ha⟩ => ⟨f a, a, ha, rfl⟩⟩

theorem exists_bind_eq_ok_iff {x : Except ε α} {f : α → Except ε β} :
    (∃ b, (x >>= f) = .ok b) ↔ ∃ a, x = .ok a ∧ ∃ b, f a = .ok b := by
  simp only [bind_eq_ok_iff]
  exact ⟨fun ⟨b, a, ha, hb⟩ => ⟨a, ha, b, hb⟩, fun ⟨a, ha, b, hb⟩ => ⟨b, a, ha, hb⟩⟩

/-- Wording an error does not make it a success. -/
theorem mapError_eq_ok_iff {f : ε → β} {x : Except ε α} {a : α} :
    x.mapError f = .ok a ↔ x = .ok a := by
  cases x with
  | error e =>
    change Except.error (f e) = .ok a ↔ _
    simp
  | ok b =>
    change Except.ok b = .ok a ↔ _
    simp

theorem toOption_eq_some_iff {x : Except ε α} {a : α} : x.toOption = some a ↔ x = .ok a := by
  cases x with
  | error e => simp [Except.toOption]
  | ok a => simp [Except.toOption]

/-- What is seen of a result is seen of one that is there. -/
theorem toOption_map_eq_some_iff {f : α → β} {x : Except ε α} {b : β} :
    x.toOption.map f = some b ↔ ∃ a, x = .ok a ∧ f a = b := by
  simp only [Option.map_eq_some_iff, toOption_eq_some_iff]

theorem toOption_bind_eq_some_iff {f : α → Option β} {x : Except ε α} {b : β} :
    x.toOption.bind f = some b ↔ ∃ a, x = .ok a ∧ f a = some b := by
  simp only [Option.bind_eq_some_iff, toOption_eq_some_iff]

theorem toOption_eq_none_iff {x : Except ε α} : x.toOption = none ↔ ∃ e, x = .error e := by
  cases x with
  | error e => simp [Except.toOption]
  | ok a => simp [Except.toOption]

/-- **Run lemma for invariants.** What every step keeps, a run of steps keeps. -/
theorem foldlM_invariant {f : β → α → Except ε β} {P : β → Prop}
    (step : ∀ b a b', P b → f b a = .ok b' → P b') {xs : List α} {b b' : β} (h : P b)
    (run : xs.foldlM f b = .ok b') : P b' := by
  induction xs generalizing b with
  | nil =>
    obtain rfl := Except.ok.inj run
    exact h
  | cons a rest ih =>
    rw [List.foldlM_cons, bind_eq_ok_iff] at run
    obtain ⟨b₁, hstep, hrest⟩ := run
    exact ih (step b a b₁ h hstep) hrest

/-- A check and what follows it succeed when the check does not strike and the rest succeeds. -/
theorem guard_eq_ok_iff {c : Prop} [Decidable c] {e : ε} {f : β → Except ε α}
    {rest : Except ε α} {a : α} :
    (if c then throw e >>= f else rest) = .ok a ↔ ¬c ∧ rest = .ok a := by
  by_cases hc : c
  · simp [hc, throw, throwThe, MonadExceptOf.throw, bind, Except.bind]
  · simp [hc]

/-! ### Both ends of a computation -/

/-- **How a computation ends.** It fails with an error of one kind, or succeeds with a result of
another. -/
inductive Ends (E : ε → Prop) (P : α → Prop) : Except ε α → Prop
  | error {e : ε} (h : E e) : Ends E P (.error e)
  | ok {a : α} (h : P a) : Ends E P (.ok a)

namespace Ends

variable {E : ε → Prop} {P : α → Prop} {Q : β → Prop} {x : Except ε α}

/-- One step after the other: what the first one establishes, the second one may rely on. -/
theorem bind {f : α → Except ε β} (hx : Ends E P x) (hf : ∀ a, P a → Ends E Q (f a)) :
    Ends E Q (x >>= f) := by
  cases hx with
  | error h => exact .error h
  | ok h => exact hf _ h

theorem mono {E' : ε → Prop} {P' : α → Prop} (hx : Ends E P x) (hE : ∀ e, E e → E' e)
    (hP : ∀ a, P a → P' a) : Ends E' P' x := by
  cases hx with
  | error h => exact .error (hE _ h)
  | ok h => exact .ok (hP _ h)

/-- A check and what follows it: the check fails as it says, or the rest may rely on it. -/
theorem guard {c : Prop} [Decidable c] {e : ε} {f : β → Except ε α} (herror : c → E e)
    (hx : ¬c → Ends E P x) : Ends E P (if c then throw e >>= f else x) := by
  by_cases h : c
  · rw [if_pos h]
    exact .error (herror h)
  · rw [if_neg h]
    exact hx h

/-- The same step on all items of a list. It fails on one of them, or each of them passes and gives
its result. -/
theorem mapM {f : α → Except ε β} {g : α → β} {xs : List α}
    (h : ∀ a ∈ xs, Ends E (fun b => P a ∧ b = g a) (f a)) :
    Ends E (fun bs => (∀ a ∈ xs, P a) ∧ bs = xs.map g) (xs.mapM f) := by
  induction xs with
  | nil => exact .ok ⟨nofun, rfl⟩
  | cons a rest ih =>
    obtain ⟨ha, hrest⟩ := List.forall_mem_cons.mp h
    rw [List.mapM_cons]
    refine ha.bind fun b hb => (ih hrest).bind fun bs hbs => .ok ⟨?_, ?_⟩
    · exact List.forall_mem_cons.mpr ⟨hb.1, hbs.1⟩
    · rw [hb.2, hbs.2, List.map_cons]

/-- A run of steps ends as its steps do, if every step keeps what they rely on. -/
theorem foldlM {f : β → α → Except ε β} {xs : List α}
    (step : ∀ b, ∀ a ∈ xs, Q b → Ends E Q (f b a)) {b : β} (h : Q b) :
    Ends E Q (xs.foldlM f b) := by
  induction xs generalizing b with
  | nil => exact .ok h
  | cons a rest ih =>
    rw [List.foldlM_cons]
    refine (step b a List.mem_cons_self h).bind fun _ hnext => ih (fun b' a' hmem => ?_) hnext
    exact step b' a' (List.mem_cons_of_mem a hmem)

/-- Where nothing fails that meets the condition, the condition decides, and what it leads to is
known. -/
theorem eq_ok_iff {C : Prop} {a r : α} (hx : Ends E (fun a => C ∧ a = r) x)
    (hE : ∀ e, E e → ¬C) : x = .ok a ↔ C ∧ a = r := by
  cases hx with
  | error h => exact iff_of_false (by simp) fun hC => hE _ h hC.1
  | ok h =>
    obtain ⟨hC, rfl⟩ := h
    rw [Except.ok.injEq, eq_comm]
    exact (and_iff_right hC).symm

/-- What cannot fail succeeds. -/
theorem exists_ok (hx : Ends E P x) (hE : ∀ e, ¬E e) : ∃ a, x = .ok a ∧ P a := by
  cases hx with
  | error h => exact absurd h (hE _)
  | ok h => exact ⟨_, rfl, h⟩

/-- What cannot succeed fails. -/
theorem exists_error (hx : Ends E P x) (hP : ∀ a, ¬P a) : ∃ e, x = .error e ∧ E e := by
  cases hx with
  | error h => exact ⟨_, rfl, h⟩
  | ok h => exact absurd h (hP _)

theorem of_eq_ok {a : α} (hx : Ends E P x) (h : x = .ok a) : P a := by
  cases hx with
  | error => contradiction
  | ok hP =>
    obtain rfl := Except.ok.inj h
    exact hP

theorem of_eq_error {e : ε} (hx : Ends E P x) (h : x = .error e) : E e := by
  cases hx with
  | ok => contradiction
  | error hE =>
    obtain rfl := Except.error.inj h
    exact hE

end Ends

end NestedRecords
