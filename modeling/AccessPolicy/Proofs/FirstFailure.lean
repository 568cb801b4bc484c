import AccessPolicy.Proofs.Except

/-!
# The first failure

Where several things are wrong at once, one of them is reported, and which one depends on the order
in which they are looked for.  `FirstFailure fails items cause` says this on a list of items alone:
the first item that fails does so for this cause.

`Except.Reports x fails items` ties a computation to such a list: whatever is wrong with its result,
it is the first failure in the list that is reported.  A computation made of two such parts reports
on the items of both, one list after the other (`Except.Reports.bind`), so that the order of the
checks can be read off a chain of binds.
-/

namespace AccessPolicy
variable {α ε : Type} {fails : α → ε → Prop} {a : α} {items items' : List α} {cause : ε}

/-! ### First failures -/

/-- The first of some items that fails does so for this cause. -/
def FirstFailure (fails : α → ε → Prop) (items : List α) (cause : ε) : Prop :=
  ∃ i a, items[i]? = some a ∧ fails a cause ∧ ∀ b ∈ items.take i, ∀ cause', ¬ fails b cause'

theorem firstFailure_congr {fails' : α → ε → Prop} (h : ∀ a cause, fails a cause ↔ fails' a cause) :
    FirstFailure fails items cause ↔ FirstFailure fails' items cause := by
  simp only [FirstFailure, h]

@[simp] theorem not_firstFailure_nil : ¬ FirstFailure fails [] cause := by
  rintro ⟨i, a, hget, _⟩
  cases hget

@[simp] theorem firstFailure_cons_iff :
    FirstFailure fails (a :: items) cause ↔
      fails a cause ∨ (∀ cause', ¬ fails a cause') ∧ FirstFailure fails items cause := by
  constructor
  · rintro ⟨i, b, hget, hb, hbefore⟩
    cases i with
    | zero =>
      obtain rfl := Option.some.inj hget
      exact Or.inl hb
    | succ i =>
      rw [List.take_succ_cons, List.forall_mem_cons] at hbefore
      exact Or.inr ⟨hbefore.1, i, b, hget, hb, hbefore.2⟩
  · rintro (ha | ⟨ha, i, b, hget, hb, hbefore⟩)
    · exact ⟨0, a, rfl, ha, by simp⟩
    · refine ⟨i + 1, b, hget, hb, ?_⟩
      rw [List.take_succ_cons, List.forall_mem_cons]
      exact ⟨ha, hbefore⟩

theorem firstFailure_singleton_iff : FirstFailure fails [a] cause ↔ fails a cause := by
  rw [firstFailure_cons_iff, or_iff_left fun h => not_firstFailure_nil h.2]

/-- Where something fails something fails first. -/
theorem forall_not_firstFailure_iff :
    (∀ cause, ¬ FirstFailure fails items cause) ↔ ∀ a ∈ items, ∀ cause, ¬ fails a cause := by
  induction items with
  | nil =>
    constructor
    · intro _ a ha
      cases ha
    · intro _ cause
      exact not_firstFailure_nil
  | cons a items ih =>
    simp only [firstFailure_cons_iff, not_or, not_and, List.forall_mem_cons]
    rw [← ih]
    constructor
    · intro h
      have ha : ∀ cause, ¬ fails a cause := fun cause => (h cause).1
      exact ⟨ha, fun cause => (h cause).2 ha⟩
    · rintro ⟨ha, hitems⟩ cause
      exact ⟨ha cause, fun _ => hitems cause⟩

theorem exists_firstFailure_iff :
    (∃ cause, FirstFailure fails items cause) ↔ ∃ a ∈ items, ∃ cause, fails a cause := by
  have hnone := not_congr (@forall_not_firstFailure_iff _ _ fails items)
  simpa only [Classical.not_forall, Classical.not_not, exists_prop] using hnone

theorem firstFailure_append_iff :
    FirstFailure fails (items ++ items') cause ↔
      FirstFailure fails items cause ∨
        (∀ cause', ¬ FirstFailure fails items cause') ∧ FirstFailure fails items' cause := by
  simp only [forall_not_firstFailure_iff]
  induction items with
  | nil => simp
  | cons a items ih =>
    simp only [List.cons_append, firstFailure_cons_iff, List.forall_mem_cons, ih]
    constructor
    · rintro (ha | ⟨ha, hitems | ⟨hitems, hitems'⟩⟩)
      · exact Or.inl (Or.inl ha)
      · exact Or.inl (Or.inr ⟨ha, hitems⟩)
      · exact Or.inr ⟨⟨ha, hitems⟩, hitems'⟩
    · rintro ((ha | ⟨ha, hitems⟩) | ⟨⟨ha, hitems⟩, hitems'⟩)
      · exact Or.inl ha
      · exact Or.inr ⟨ha, Or.inl hitems⟩
      · exact Or.inr ⟨ha, Or.inr ⟨hitems, hitems'⟩⟩

/-- A search for a cause finds that of the first failure. -/
theorem findSome?_eq_some_iff_firstFailure {cause? : α → Option ε} :
    items.findSome? cause? = some cause ↔
      FirstFailure (fun a cause => cause? a = some cause) items cause := by
  induction items with
  | nil => simp
  | cons a items ih =>
    rw [firstFailure_cons_iff, ← ih, List.findSome?_cons]
    cases cause? a <;> simp

end AccessPolicy

/-! ### Computations -/

namespace Except
open AccessPolicy
variable {α β γ ε : Type} {fails : α → ε → Prop} {checks checks' : List α} {cause : ε}

/-- A computation fails exactly as the first of some checks that fails. -/
def Reports (x : Except ε β) (fails : α → ε → Prop) (checks : List α) : Prop :=
  ∀ cause, x = .error cause ↔ FirstFailure fails checks cause

namespace Reports

/-- What cannot fail makes no checks. -/
theorem ok (b : β) : Reports (.ok b : Except ε β) fails [] := by
  intro cause
  constructor
  · intro h
    cases h
  · intro h
    exact absurd h not_firstFailure_nil

theorem singleton {x : Except ε β} {a : α} (h : ∀ cause, x = .error cause ↔ fails a cause) :
    Reports x fails [a] := by
  intro cause
  rw [firstFailure_singleton_iff]
  exact h cause

/-- Where the first check fails the others play no part. -/
theorem error {a : α} (ha : ∀ cause', fails a cause' ↔ cause' = cause) :
    (.error cause : Except ε β).Reports fails (a :: checks) := by
  intro cause'
  have hfirst : fails a cause := (ha cause).2 rfl
  rw [firstFailure_cons_iff, or_iff_left fun h => h.1 cause hfirst, ha, Except.error.injEq,
    eq_comm]

/-- A check that does not fail may stand before the others. -/
theorem cons {x : Except ε β} {a : α} (ha : ∀ cause, ¬ fails a cause)
    (hx : x.Reports fails checks) : x.Reports fails (a :: checks) := by
  intro cause
  rw [firstFailure_cons_iff, or_iff_right (ha cause), and_iff_right ha]
  exact hx cause

/-- A check of a condition stands before the others. -/
theorem check {x : Except ε β} {a : α} {P : Prop} [Decidable P]
    (ha : ∀ cause', fails a cause' ↔ P ∧ cause' = cause) (hx : ¬ P → x.Reports fails checks) :
    (if P then .error cause else x).Reports fails (a :: checks) := by
  by_cases h : P
  · rw [if_pos h]
    exact error fun cause' => (ha cause').trans (and_iff_right h)
  · rw [if_neg h]
    exact cons (fun cause' hfails => h ((ha cause').1 hfails).1) (hx h)

/-- The checks of the first part come before those of the second. -/
theorem bind {x : Except ε β} {f : β → Except ε γ} (hx : x.Reports fails checks)
    (hf : ∀ b, x = .ok b → (f b).Reports fails checks') :
    (x >>= f).Reports fails (checks ++ checks') := by
  intro cause
  rw [bind_eq_error_iff, firstFailure_append_iff, hx cause]
  refine or_congr_right ?_
  cases x with
  | error cause' =>
    -- the first part has failed, so the second is not reached
    have hfailed : FirstFailure fails checks cause' := (hx cause').1 rfl
    constructor
    · rintro ⟨b, h, _⟩
      cases h
    · rintro ⟨h, _⟩
      exact absurd hfailed (h cause')
  | ok b =>
    have hpassed : ∀ cause', ¬ FirstFailure fails checks cause' := by
      intro cause' h
      cases (hx cause').2 h
    rw [and_iff_right hpassed, ← hf b rfl cause]
    constructor
    · rintro ⟨_, h, hfail⟩
      obtain rfl := Except.ok.inj h
      exact hfail
    · intro hfail
      exact ⟨b, rfl, hfail⟩

/-- What is made of a result plays no part. -/
@[simp] theorem map_iff {x : Except ε β} {f : β → γ} :
    (x.map f).Reports fails checks ↔ x.Reports fails checks := by
  simp only [Reports, map_eq_error_iff]

/-- A list is gone through item by item. -/
theorem mapM {f : α → Except ε β} {items : List α} :
    (items.mapM f).Reports (fun a cause => f a = .error cause) items := by
  induction items with
  | nil => exact ok []
  | cons a items ih =>
    rw [List.mapM_cons]
    have ha : (f a).Reports (fun a cause => f a = .error cause) [a] := singleton fun _ => Iff.rfl
    refine ha.bind fun b _ => ?_
    exact map_iff.2 ih

end Reports

end Except
