import AccessPolicy.Proofs.Decisions

/-!
# The order of statements

An engine stops at the first statement that denies a request and fails at the first pattern that
does not verify, so what it looks at depends on the order of its statements.  What it decides does
not: which requests are allowed can be said by membership alone (`Engine.evaluate_eq_allowed_iff`),
so engines with the same statements, in whatever order and however often, allow the same requests
(`Engine.evaluate_eq_allowed_congr`).  A decision that is not to allow is to deny, and where all
patterns verify there is a decision.

Main statement: `Engine.evaluate_reordered`.
-/

namespace AccessPolicy

/-! ### Repetitions -/

/-- Lists that come from a list by putting in some of its items again, at any places. -/
inductive Repeats {α : Type} (items : List α) : List α → Prop
  | refl : Repeats items items
  | insert {before after : List α} {a : α} (h : Repeats items (before ++ after))
      (ha : a ∈ before ++ after) (count : Nat) :
      Repeats items (before ++ List.replicate count a ++ after)

/-- Repetition brings in nothing new and leaves out nothing. -/
theorem Repeats.mem_iff {α : Type} {items items' : List α} (h : Repeats items items') (b : α) :
    b ∈ items' ↔ b ∈ items := by
  induction h with
  | refl => exact Iff.rfl
  | @insert before after a _ ha count ih =>
    rw [← ih, List.mem_append, List.mem_append, List.mem_append]
    constructor
    · rintro ((hb | hb) | hb)
      · exact Or.inl hb
      · obtain rfl := List.eq_of_mem_replicate hb
        exact List.mem_append.1 ha
      · exact Or.inr hb
    · rintro (hb | hb)
      · exact Or.inl (Or.inl hb)
      · exact Or.inr hb

namespace Engine
variable {e : Engine} {request : Request} {statements : List Statement}

/-! ### Engines with the same statements -/

/-- An engine that differs in its statements only. -/
def withStatements (e : Engine) (statements : List Statement) : Engine :=
  { e with document.statements := statements }

theorem someApplies_congr {statements' : List Statement} {effect : Effect}
    (h : ∀ s, s ∈ statements' ↔ s ∈ statements) :
    e.SomeApplies request effect statements' ↔ e.SomeApplies request effect statements := by
  unfold SomeApplies
  simp only [h]

/-- What is allowed depends on which statements there are, and on nothing else about them. -/
theorem evaluate_eq_allowed_congr (h : ∀ s, s ∈ statements ↔ s ∈ e.document.statements) :
    (e.withStatements statements).evaluate request = .ok .allowed ↔
      e.evaluate request = .ok .allowed := by
  rw [evaluate_eq_allowed_iff, evaluate_eq_allowed_iff]
  have hverified : (∀ s ∈ statements, (e.withStatements statements).Verified s) ↔
      ∀ s ∈ e.document.statements, e.Verified s :=
    forall_congr' fun s => imp_congr_left (h s)
  have hsome : ∀ effect, (e.withStatements statements).SomeApplies request effect statements ↔
      e.SomeApplies request effect e.document.statements := fun effect => someApplies_congr h
  exact and_congr hverified (and_congr (not_congr (hsome .deny)) (or_congr_left (hsome .allow)))

/-- Two engines that allow the same requests do not decide differently. -/
theorem eq_of_evaluate_eq_allowed_iff {e' : Engine} {decision decision' : Decision}
    (h : e'.evaluate request = .ok .allowed ↔ e.evaluate request = .ok .allowed)
    (hdecision : e.evaluate request = .ok decision)
    (hdecision' : e'.evaluate request = .ok decision') : decision' = decision := by
  rw [hdecision, hdecision', Except.ok.injEq, Except.ok.injEq] at h
  cases decision' with
  | allowed => exact (h.1 rfl).symm
  | denied =>
    cases decision with
    | allowed => exact h.2 rfl
    | denied => rfl

/-- If all patterns verify, what comes of a passage is settled by the effects with which statements
apply. -/
theorem effectOf_congr {e' : Engine} {statements' : List Statement}
    (hverified : ∀ s ∈ statements, e.Verified s) (hverified' : ∀ s ∈ statements', e'.Verified s)
    (happlies : ∀ effect, e'.SomeApplies request effect statements' ↔
      e.SomeApplies request effect statements) :
    e'.effectOf request statements' = e.effectOf request statements := by
  rw [effectOf_of_verified hverified, effectOf_of_verified hverified']
  simp only [happlies]

/-- Where all patterns verify, it matters only with which effects statements apply. -/
theorem evaluate_withStatements_of_applies
    (hverified : ∀ s ∈ e.document.statements, e.Verified s)
    (hverified' : ∀ s ∈ statements, e.Verified s)
    (happlies : ∀ effect, e.SomeApplies request effect statements ↔
      e.SomeApplies request effect e.document.statements) :
    (e.withStatements statements).evaluate request = e.evaluate request := by
  have heffect : (e.withStatements statements).effectOf request
      (e.withStatements statements).document.statements =
        e.effectOf request e.document.statements :=
    effectOf_congr hverified hverified' happlies
  rw [evaluate, heffect]
  rfl

/-- Where all patterns verify, engines with the same statements decide alike. -/
theorem evaluate_withStatements (h : ∀ s, s ∈ statements ↔ s ∈ e.document.statements)
    (hverified : ∀ s ∈ e.document.statements, e.Verified s) :
    (e.withStatements statements).evaluate request = e.evaluate request := by
  have hverified' : ∀ s ∈ statements, e.Verified s := fun s hs => hverified s ((h s).1 hs)
  exact evaluate_withStatements_of_applies hverified hverified' fun _ => someApplies_congr h

/-! ### Reordering and repeating -/

/-- **The order of statements never changes a decision.**  Two orders that both lead to a decision
lead to the same one, and no order allows what another denies.  If all patterns verify, every order
leads to a decision, and repeated statements change nothing. -/
theorem evaluate_reordered (e : Engine) (request : Request) :
    (∀ statements, statements.Perm e.document.statements →
      (∀ decision decision', e.evaluate request = .ok decision →
        (e.withStatements statements).evaluate request = .ok decision' → decision' = decision) ∧
      ((∀ s ∈ e.document.statements, e.Verified s) → ∃ decision,
        e.evaluate request = .ok decision ∧
          (e.withStatements statements).evaluate request = .ok decision) ∧
      ∀ statements', statements'.Perm e.document.statements →
        ¬ ((e.withStatements statements).evaluate request = .ok .allowed ∧
          (e.withStatements statements').evaluate request = .ok .denied)) ∧
    ((∀ s ∈ e.document.statements, e.Verified s) →
      ∀ statements, Repeats e.document.statements statements →
        (e.withStatements statements).evaluate request = e.evaluate request) := by
  constructor
  · intro statements hperm
    have hcongr : (e.withStatements statements).evaluate request = .ok .allowed ↔
        e.evaluate request = .ok .allowed := evaluate_eq_allowed_congr fun s => hperm.mem_iff
    refine ⟨fun _ _ => eq_of_evaluate_eq_allowed_iff hcongr, fun hverified => ?_, ?_⟩
    · have hdecision : e.evaluate request = .ok (e.decision request) :=
        evaluate_eq_decision hverified
      have hsame : (e.withStatements statements).evaluate request = e.evaluate request :=
        evaluate_withStatements (fun s => hperm.mem_iff) hverified
      exact ⟨_, hdecision, hsame.trans hdecision⟩
    · rintro statements' hperm' ⟨hallowed, hdenied⟩
      have hcongr' : (e.withStatements statements').evaluate request = .ok .allowed ↔
          e.evaluate request = .ok .allowed := evaluate_eq_allowed_congr fun s => hperm'.mem_iff
      rw [hcongr'.2 (hcongr.1 hallowed)] at hdenied
      cases hdenied
  · intro hverified statements hrepeats
    exact evaluate_withStatements hrepeats.mem_iff hverified

/-- In the shared bucket the denial stands last.  It could as well stand first, and be said three
times more. -/
theorem sharedBucket_reordered :
    sharedBucket.document.statements.reverse.Perm sharedBucket.document.statements ∧
      (∀ s ∈ sharedBucket.document.statements, sharedBucket.Verified s) ∧
      sharedBucket.evaluate writeNotes = .ok .denied ∧
      (sharedBucket.withStatements sharedBucket.document.statements.reverse).evaluate writeNotes =
        .ok .denied ∧
      ∃ s ∈ sharedBucket.document.statements, s.effect = .deny ∧
        (sharedBucket.withStatements
          (List.replicate 3 s ++ sharedBucket.document.statements)).evaluate writeNotes =
            .ok .denied := by
  obtain ⟨hreordered, hrepeated⟩ := evaluate_reordered sharedBucket writeNotes
  have hperm := List.reverse_perm sharedBucket.document.statements
  obtain ⟨hsame, hdecided, _⟩ := hreordered _ hperm
  have hdenied : sharedBucket.evaluate writeNotes = .ok .denied := by
    rw [evaluate_eq_denied_iff sharedBucket_verified, ne_eq, evaluate_eq_allowed_iff]
    rintro ⟨_, hdeny, _⟩
    exact hdeny sharedBucket_denies_writeNotes
  refine ⟨hperm, sharedBucket_verified, hdenied, ?_, ?_⟩
  · obtain ⟨decision, _, hdecision⟩ := hdecided sharedBucket_verified
    obtain rfl := hsame .denied decision hdenied hdecision
    exact hdecision
  · obtain ⟨s, hs, heffect, _⟩ := sharedBucket_denies_writeNotes
    have hrepeats : Repeats sharedBucket.document.statements
        (List.replicate 3 s ++ sharedBucket.document.statements) :=
      @Repeats.insert _ _ [] _ s .refl hs 3
    exact ⟨s, hs, heffect, (hrepeated sharedBucket_verified _ hrepeats).trans hdenied⟩

end Engine

end AccessPolicy
