import Mathlib.Data.List.Forall2
import NestedRecords.Proofs.Outcome

/-!
# Computations side by side

Two computations that run the same program on data that correspond. `Paired` says that they end
alike, both with an error or both with a result, and that their ends correspond as well. Like `Ends`
it is put together from what is known of the steps, and steps that are repeated go through lists
whose items correspond one by one.

`Follows` says less: the second computation succeeds at least where the first one does.
-/

namespace NestedRecords

open List

variable {ε ε' α α' β β' γ γ' : Type}

/-- **Side by side.** Either both computations fail, with errors that correspond, or both succeed,
with results that correspond. -/
inductive Paired (E : ε → ε' → Prop) (P : α → α' → Prop) : Except ε α → Except ε' α' → Prop
  | error {e : ε} {e' : ε'} (h : E e e') : Paired E P (.error e) (.error e')
  | ok {a : α} {a' : α'} (h : P a a') : Paired E P (.ok a) (.ok a')

namespace Paired

variable {E : ε → ε' → Prop} {P : α → α' → Prop} {Q : β → β' → Prop} {R : γ → γ' → Prop}
  {x : Except ε α} {x' : Except ε' α'}

/-- One step after the other. -/
theorem bind {f : α → Except ε β} {f' : α' → Except ε' β'} (hx : Paired E P x x')
    (hf : ∀ a a', P a a' → Paired E Q (f a) (f' a')) : Paired E Q (x >>= f) (x' >>= f') := by
  cases hx with
  | error h => exact .error h
  | ok h => exact hf _ _ h

/-- One step after another one that is the same on both sides. -/
theorem bind_same {E : ε → ε → Prop} (hE : ∀ e, E e e) {y : Except ε γ} {f : γ → Except ε β}
    {f' : γ → Except ε β'} (hf : ∀ c, Paired E Q (f c) (f' c)) :
    Paired E Q (y >>= f) (y >>= f') := by
  cases y with
  | error e => exact .error (hE e)
  | ok c => exact hf c

theorem mono {E' : ε → ε' → Prop} {P' : α → α' → Prop} (hx : Paired E P x x')
    (hE : ∀ e e', E e e' → E' e e') (hP : ∀ a a', P a a' → P' a a') : Paired E' P' x x' := by
  cases hx with
  | error h => exact .error (hE _ _ h)
  | ok h => exact .ok (hP _ _ h)

/-- Results that correspond, and where they come from. -/
theorem with_eq (hx : Paired E P x x') :
    Paired E (fun a a' => P a a' ∧ x = .ok a ∧ x' = .ok a') x x' := by
  cases hx with
  | error h => exact .error h
  | ok h => exact .ok ⟨h, rfl, rfl⟩

theorem map {g : α → β} {g' : α' → β'} (hx : Paired E P x x')
    (hg : ∀ a a', P a a' → Q (g a) (g' a')) : Paired E Q (g <$> x) (g' <$> x') := by
  cases hx with
  | error h => exact .error h
  | ok h => exact .ok (hg _ _ h)

/-- One computation succeeds as the other one does. -/
theorem exists_ok_iff (hx : Paired E P x x') : (∃ a, x = .ok a) ↔ ∃ a', x' = .ok a' := by
  cases hx with
  | error => exact iff_of_false nofun nofun
  | ok => exact iff_of_true ⟨_, rfl⟩ ⟨_, rfl⟩

/-- Where one computation succeeds, the other one has a result that corresponds. -/
theorem exists_ok (hx : Paired E P x x') {a : α} (h : x = .ok a) :
    ∃ a', x' = .ok a' ∧ P a a' := by
  cases hx with
  | error => contradiction
  | ok ha =>
    obtain rfl := Except.ok.inj h
    exact ⟨_, rfl, ha⟩

/-- Where results correspond that are equal, one computation succeeds as the other one does. -/
theorem eq_ok {y : Except ε α} {y' : Except ε' α} {a : α} (h : Paired E Eq y y')
    (hy : y = .ok a) : y' = .ok a := by
  obtain ⟨_, hy', rfl⟩ := h.exists_ok hy
  exact hy'

/-- Wording errors. -/
theorem mapError {D : β → β' → Prop} {g : ε → β} {g' : ε' → β'} (hx : Paired E P x x')
    (hg : ∀ e e', E e e' → D (g e) (g' e')) : Paired D P (x.mapError g) (x'.mapError g') := by
  cases hx with
  | error h => exact .error (hg _ _ h)
  | ok h => exact .ok h

/-- Two computations that are each decided by a condition, where the conditions come to the
same. -/
theorem of_eq_ok_iff {C C' : Prop} {r : α} {r' : α'} (hx : ∀ a, x = .ok a ↔ C ∧ a = r)
    (hx' : ∀ a, x' = .ok a ↔ C' ∧ a = r') (hC : C ↔ C') (hP : C → P r r') :
    Paired (fun _ _ => True) P x x' := by
  by_cases h : C
  · rw [(hx r).mpr ⟨h, rfl⟩, (hx' r').mpr ⟨hC.mp h, rfl⟩]
    exact .ok (hP h)
  · cases x with
    | ok a => exact absurd ((hx a).mp rfl).1 h
    | error e =>
      cases x' with
      | ok a' => exact absurd (hC.mpr ((hx' a').mp rfl).1) h
      | error e' => exact .error trivial

/-- A check of conditions that come to the same, and what follows it. -/
theorem guard {c c' : Prop} [Decidable c] [Decidable c'] {e : ε} {e' : ε'}
    {f : β → Except ε α} {f' : β' → Except ε' α'} (hc : c ↔ c') (he : E e e')
    (hx : Paired E P x x') :
    Paired E P (if c then throw e >>= f else x) (if c' then throw e' >>= f' else x') := by
  by_cases h : c
  · rw [if_pos h, if_pos (hc.mp h)]
    exact .error he
  · rw [if_neg h, if_neg (mt hc.mpr h)]
    exact hx

/-- **Run lemma.** Steps that correspond, one after the other. -/
theorem foldlM {f : β → γ → Except ε β} {f' : β' → γ' → Except ε' β'} {xs : List γ}
    {xs' : List γ'}
    (step : ∀ b b' a a', Q b b' → R a a' → Paired E Q (f b a) (f' b' a'))
    (h : Forall₂ R xs xs') : ∀ {b : β} {b' : β'}, Q b b' →
      Paired E Q (xs.foldlM f b) (xs'.foldlM f' b') := by
  induction h with
  | nil => exact fun hb => .ok hb
  | cons ha _ ih =>
    intro b b' hb
    rw [List.foldlM_cons, List.foldlM_cons]
    exact (step _ _ _ _ hb ha).bind fun _ _ => ih

/-- The same step on items that correspond. -/
theorem mapM {f : γ → Except ε α} {f' : γ' → Except ε' α'} {xs : List γ} {xs' : List γ'}
    (step : ∀ a a', R a a' → Paired E P (f a) (f' a')) (h : Forall₂ R xs xs') :
    Paired E (Forall₂ P) (xs.mapM f) (xs'.mapM f') := by
  induction h with
  | nil => exact .ok .nil
  | cons ha _ ih =>
    rw [List.mapM_cons, List.mapM_cons]
    exact (step _ _ ha).bind fun _ _ hb => ih.bind fun _ _ hbs => .ok (.cons hb hbs)

end Paired

/-! ### One computation after the other -/

/-- **Following.** Where the first computation succeeds, the second one succeeds too, with a result
that corresponds. -/
inductive Follows (P : α → α' → Prop) : Except ε α → Except ε' α' → Prop
  | error {e : ε} {x' : Except ε' α'} : Follows P (.error e) x'
  | ok {a : α} {a' : α'} (h : P a a') : Follows P (.ok a) (.ok a')

namespace Follows

variable {P : α → α' → Prop} {Q : β → β' → Prop} {x : Except ε α} {x' : Except ε' α'}

theorem of_eq_ok (h : ∀ a, x = .ok a → ∃ a', x' = .ok a' ∧ P a a') : Follows P x x' := by
  cases x with
  | error e => exact .error
  | ok a =>
    obtain ⟨a', rfl, ha⟩ := h a rfl
    exact .ok ha

/-- One step after the other. Where the results come from may matter for what follows. -/
theorem bind {f : α → Except ε β} {f' : α' → Except ε' β'} (hx : Follows P x x')
    (hf : ∀ a a', x = .ok a → x' = .ok a' → P a a' → Follows Q (f a) (f' a')) :
    Follows Q (x >>= f) (x' >>= f') := by
  cases hx with
  | error => exact .error
  | ok h => exact hf _ _ rfl rfl h

theorem exists_ok (hx : Follows P x x') {a : α} (h : x = .ok a) : ∃ a', x' = .ok a' ∧ P a a' := by
  cases hx with
  | error => contradiction
  | ok ha =>
    obtain rfl := Except.ok.inj h
    exact ⟨_, rfl, ha⟩

end Follows

/-! ### Lists side by side -/

/-- Items that correspond are mapped to the same. -/
theorem map_eq_map_of_forall₂ {R : γ → γ' → Prop} {f : γ → α} {f' : γ' → α} {xs : List γ}
    {xs' : List γ'} (hf : ∀ a a', R a a' → f a = f' a') (h : Forall₂ R xs xs') :
    xs.map f = xs'.map f' := by
  rw [← forall₂_eq_eq_eq]
  exact rel_map hf h

/-- Each item is mapped to two that correspond. -/
theorem forall₂_map_self {P : α → α' → Prop} {f : γ → α} {f' : γ → α'} {xs : List γ}
    (h : ∀ a ∈ xs, P (f a) (f' a)) : Forall₂ P (xs.map f) (xs.map f') := by
  rw [forall₂_map_left_iff, forall₂_map_right_iff]
  exact forall₂_same.mpr h

open Relator in
/-- What is looked up by keys that correspond one to one. -/
theorem lookup_eq_of_forall₂ {K : String → String → Prop} (hK : BiUnique K)
    {map map' : List (String × β)}
    (h : Forall₂ (fun pair pair' => K pair.1 pair'.1 ∧ pair.2 = pair'.2) map map')
    {key key' : String} (hkey : K key key') : map.lookup key = map'.lookup key' := by
  induction h with
  | nil => rfl
  | @cons pair pair' rest rest' hpair _ ih =>
    have hiff : key = pair.1 ↔ key' = pair'.1 := rel_eq hK hkey hpair.1
    by_cases heq : key = pair.1
    · rw [List.lookup_cons, List.lookup_cons, beq_iff_eq.mpr heq, beq_iff_eq.mpr (hiff.mp heq),
        hpair.2]
    · rw [List.lookup_cons, List.lookup_cons, beq_false_of_ne heq,
        beq_false_of_ne (mt hiff.mpr heq)]
      exact ih

/-- The first items of which something holds correspond, if there are any. -/
theorem find?_paired {p : α → Bool} {p' : α' → Bool} {P : α → α' → Prop} {xs : List α}
    {xs' : List α'} (hp : ∀ a a', P a a' → p a = p' a') (h : Forall₂ P xs xs') :
    (xs.find? p = none ∧ xs'.find? p' = none) ∨
      ∃ a a', xs.find? p = some a ∧ xs'.find? p' = some a' ∧ P a a' := by
  induction h with
  | nil => exact .inl ⟨rfl, rfl⟩
  | @cons a a' rest rest' ha _ ih =>
    rw [List.find?_cons, List.find?_cons, hp a a' ha]
    split
    · exact .inr ⟨a, a', rfl, rfl, ha⟩
    · exact ih

end NestedRecords
