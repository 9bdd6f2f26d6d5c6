import Mathlib.Data.List.Perm.Subperm
import NestedRecords.Proofs.Outcome

/-!
# Folds that gather

A fold goes through some items, learns from each of them and fails on one that cannot be right by
what is known so far. Often all it ever knows are facts: an item *states* some facts and *denies*
others, and a step fails on an item in two cases only, if the item is wrong in itself or denies a
fact that is known (`Gathers`).

Such a fold knows in the end what the items state, in whatever order they came
(`Gathers.known_foldlM`). Whether it gets there depends on pairs of items: no item may deny what an
item in front of it states (`Gathers.foldlM_ok_iff`). So it also gets there with fewer items
(`Gathers.foldlM_sublist`).

A step may itself be a fold that gathers (`Gathers.foldlM`), and in this way nested data is gathered
from.
-/

namespace NestedRecords

variable {σ α β ε φ : Type}

/-- **Gathering from one item.** A step adds the facts that the item states to those that are known.
It succeeds if it does from the start, where nothing is known, and the item denies nothing that is
known. -/
structure Gathers (step : σ → α → Except ε σ) (start : σ) (known : σ → φ → Prop)
    (states denies : α → φ → Prop) (item : α) : Prop where
  known_iff : ∀ {state next : σ}, step state item = .ok next →
    ∀ fact, known next fact ↔ known state fact ∨ states item fact
  ok_iff : ∀ state : σ, (∃ next, step state item = .ok next) ↔
    (∃ alone, step start item = .ok alone) ∧ ∀ fact, known state fact → ¬denies item fact

namespace Gathers

variable {step : σ → α → Except ε σ} {start : σ} {known : σ → φ → Prop}
  {states denies : α → φ → Prop} {items : List α}

/-- Items may be read off something else. -/
theorem comp (part : β → α) {whole : β}
    (h : Gathers step start known states denies (part whole)) :
    Gathers (fun state other => step state (part other)) start known
      (fun other => states (part other)) (fun other => denies (part other)) whole :=
  ⟨h.known_iff, h.ok_iff⟩

/-- **What a fold knows.** In the end it knows what it knew before and what the items state. -/
theorem known_foldlM (h : ∀ item ∈ items, Gathers step start known states denies item)
    {state last : σ} (hlast : items.foldlM step state = .ok last) (fact : φ) :
    known last fact ↔ known state fact ∨ ∃ item ∈ items, states item fact := by
  induction items generalizing state with
  | nil =>
    obtain rfl := Except.ok.inj hlast
    simp
  | cons item rest ih =>
    obtain ⟨hitem, hrest⟩ := List.forall_mem_cons.mp h
    rw [List.foldlM_cons] at hlast
    obtain ⟨next, hnext, hlast⟩ := bind_eq_ok_iff.mp hlast
    rw [ih hrest hlast, hitem.known_iff hnext, List.exists_mem_cons_iff, or_assoc]

/-- **When a fold succeeds.** Every item has to be right in itself, and none may deny what is known
before or what is stated by an item in front of it. -/
theorem foldlM_ok_iff (h : ∀ item ∈ items, Gathers step start known states denies item)
    (state : σ) :
    (∃ last, items.foldlM step state = .ok last) ↔
      (∀ item ∈ items, ∃ alone, step start item = .ok alone) ∧
      items.Pairwise (fun first second => ∀ fact, states first fact → ¬denies second fact) ∧
      ∀ item ∈ items, ∀ fact, known state fact → ¬denies item fact := by
  induction items generalizing state with
  | nil =>
    exact iff_of_true ⟨state, rfl⟩
      ⟨List.forall_mem_nil _, List.Pairwise.nil, List.forall_mem_nil _⟩
  | cons item rest ih =>
    obtain ⟨hitem, hrest⟩ := List.forall_mem_cons.mp h
    -- behind the item, known is what was known before and what the item states
    have hknown : ∀ next, step state item = .ok next →
        ((∀ other ∈ rest, ∀ fact, known next fact → ¬denies other fact) ↔
          (∀ other ∈ rest, ∀ fact, known state fact → ¬denies other fact) ∧
          ∀ other ∈ rest, ∀ fact, states item fact → ¬denies other fact) := by
      intro next hnext
      simp only [hitem.known_iff hnext, or_imp, forall_and]
    rw [List.foldlM_cons, exists_bind_eq_ok_iff, List.forall_mem_cons, List.pairwise_cons,
      List.forall_mem_cons]
    constructor
    · rintro ⟨next, hnext, hlast⟩
      obtain ⟨halone, hdenies⟩ := (hitem.ok_iff state).mp ⟨next, hnext⟩
      obtain ⟨hothers, hpairs, hnone⟩ := (ih hrest next).mp hlast
      obtain ⟨hstate, hstates⟩ := (hknown next hnext).mp hnone
      exact ⟨⟨halone, hothers⟩, ⟨hstates, hpairs⟩, hdenies, hstate⟩
    · rintro ⟨⟨halone, hothers⟩, ⟨hstates, hpairs⟩, hdenies, hstate⟩
      obtain ⟨next, hnext⟩ := (hitem.ok_iff state).mpr ⟨halone, hdenies⟩
      exact ⟨next, hnext,
        (ih hrest next).mpr ⟨hothers, hpairs, (hknown next hnext).mpr ⟨hstate, hstates⟩⟩⟩

/-- From the start, where nothing is known, only the items matter. -/
theorem foldlM_start_ok_iff (hstart : ∀ fact, ¬known start fact)
    (h : ∀ item ∈ items, Gathers step start known states denies item) :
    (∃ last, items.foldlM step start = .ok last) ↔
      (∀ item ∈ items, ∃ alone, step start item = .ok alone) ∧
      items.Pairwise fun first second => ∀ fact, states first fact → ¬denies second fact := by
  rw [foldlM_ok_iff h]
  exact and_congr_right fun _ =>
    and_iff_left fun _ _ fact hknown => absurd hknown (hstart fact)

/-- **Fewer items.** Where a fold succeeds, it also succeeds on some of the items, and knows no more
than it does from all of them. -/
theorem foldlM_sublist (hstart : ∀ fact, ¬known start fact)
    (h : ∀ item ∈ items, Gathers step start known states denies item) {kept : List α}
    (hkept : kept.Sublist items) {last : σ} (hlast : items.foldlM step start = .ok last) :
    ∃ fewer, kept.foldlM step start = .ok fewer ∧ ∀ fact, known fewer fact → known last fact := by
  have hsteps : ∀ item ∈ kept, Gathers step start known states denies item := fun item hitem =>
    h item (hkept.subset hitem)
  obtain ⟨halone, hpairs⟩ := (foldlM_start_ok_iff hstart h).mp ⟨last, hlast⟩
  obtain ⟨fewer, hfewer⟩ := (foldlM_start_ok_iff hstart hsteps).mpr
    ⟨fun item hitem => halone item (hkept.subset hitem), hpairs.sublist hkept⟩
  refine ⟨fewer, hfewer, fun fact hknown => ?_⟩
  obtain hknown | ⟨item, hitem, hstates⟩ := (known_foldlM hsteps hfewer fact).mp hknown
  · exact absurd hknown (hstart fact)
  · exact (known_foldlM h hlast fact).mpr (.inr ⟨item, hkept.subset hitem, hstates⟩)

/-- **Folds as steps.** All items of a list together state and deny what one of them does. -/
theorem foldlM (hstart : ∀ fact, ¬known start fact)
    (h : ∀ item ∈ items, Gathers step start known states denies item) :
    Gathers (fun state items => items.foldlM step state) start known
      (fun items fact => ∃ item ∈ items, states item fact)
      (fun items fact => ∃ item ∈ items, denies item fact) items where
  known_iff hlast fact := known_foldlM h hlast fact
  ok_iff state := by
    rw [foldlM_ok_iff h, foldlM_start_ok_iff hstart h, ← and_assoc]
    refine and_congr_right fun _ => ⟨fun hnone fact hknown => ?_, fun hnone item hitem => ?_⟩
    · rintro ⟨item, hitem, hdenies⟩
      exact hnone item hitem fact hknown hdenies
    · exact fun fact hknown hdenies => hnone fact hknown ⟨item, hitem, hdenies⟩

/-- **Any order.** The fold succeeds on all orders of the items just when every item is right in
itself and none denies what another one states. -/
theorem foldlM_perm_ok_iff (hstart : ∀ fact, ¬known start fact)
    (h : ∀ item, Gathers step start known states denies item) :
    (∀ others, items.Perm others → ∃ last, others.foldlM step start = .ok last) ↔
      (∀ item ∈ items, ∃ alone, step start item = .ok alone) ∧
      ∀ first second, [first, second].Subperm items →
        ∀ fact, states first fact → ¬denies second fact := by
  constructor
  · intro hall
    refine ⟨((foldlM_start_ok_iff hstart fun item _ => h item).mp (hall items (.refl _))).1, ?_⟩
    rintro first second ⟨front, hfront, hsub⟩
    -- the two items are brought to the front
    obtain ⟨rest, hrest⟩ := hsub.exists_perm_append
    have hall' := hall ([first, second] ++ rest) (hrest.trans (hfront.append_right rest))
    obtain ⟨-, hpairs⟩ := (foldlM_start_ok_iff hstart fun item _ => h item).mp hall'
    exact (List.pairwise_cons.mp hpairs).1 second List.mem_cons_self
  · rintro ⟨halone, hpairs⟩ others hperm
    refine (foldlM_start_ok_iff hstart fun item _ => h item).mpr
      ⟨fun item hitem => halone item (hperm.mem_iff.mpr hitem), ?_⟩
    refine List.pairwise_iff_forall_sublist.mpr fun {first second} hsub => ?_
    exact hpairs first second (hsub.subperm.trans hperm.symm.subperm)

end Gathers

end NestedRecords
