import AccessPolicy.Proofs.Decisions

/-!
# Conditions fail safe

An engine does not evaluate conditions.  Suppose somebody did: an `Engine.Assignment` says of each
statement whether its condition is true, and `Engine.idealDecision` is what deny overrides gives
where a conditional statement applies exactly if its clauses hold and its condition is true.

The engine allows a request exactly if the ideal decision allows it under every assignment, and
otherwise denies it (`Engine.evaluate_failsafe`).  The proof needs two assignments only: denials are
most frequent where all conditions are true, and permissions rarest where all are false.
-/

namespace AccessPolicy.Engine

/-! ### Ideal decisions -/

/-- A truth value for the condition of each statement. -/
abbrev Assignment (e : Engine) : Type := Fin e.document.statements.length → Bool

/-- Whether a statement applies if its condition has a given truth value. -/
def AppliesIf (e : Engine) (request : Request) (truth : Bool) (s : Statement) : Prop :=
  e.ClausesHold request s ∧ (s.condition = none ∨ truth = true)

/-- Some statement of a given effect applies under an assignment. -/
def SomeAppliesUnder (e : Engine) (request : Request) (σ : e.Assignment) (effect : Effect) : Prop :=
  ∃ i, (e.document.statements.get i).effect = effect ∧
    e.AppliesIf request (σ i) (e.document.statements.get i)

instance (e : Engine) (request : Request) (truth : Bool) :
    DecidablePred (e.AppliesIf request truth) :=
  fun s => inferInstanceAs (Decidable (_ ∧ (s.condition = none ∨ _)))

instance (e : Engine) (request : Request) (σ : e.Assignment) (effect : Effect) :
    Decidable (e.SomeAppliesUnder request σ effect) :=
  inferInstanceAs (Decidable (∃ _, _ ∧ _))

/-- The decision under an assignment. -/
def idealDecision (e : Engine) (request : Request) (σ : e.Assignment) : Decision :=
  denyOverrides e.default (e.SomeAppliesUnder request σ .deny) (e.SomeAppliesUnder request σ .allow)

/-! ### The extreme assignments -/

variable {e : Engine} {request : Request}

/-- More true conditions let more statements apply. -/
theorem SomeAppliesUnder.mono {σ τ : e.Assignment} {effect : Effect}
    (h : e.SomeAppliesUnder request σ effect) (hle : ∀ i, σ i = true → τ i = true) :
    e.SomeAppliesUnder request τ effect := by
  obtain ⟨i, heffect, hclauses, hcondition⟩ := h
  exact ⟨i, heffect, hclauses, hcondition.imp_right (hle i)⟩

/-- A statement of a given effect applies in the engine as it does under a constant assignment, if
that treats conditional statements of this effect as the engine does. -/
theorem someAppliesUnder_const_iff {truth : Bool} {effect : Effect}
    (h : truth = true ↔ effect = .deny) :
    e.SomeAppliesUnder request (fun _ => truth) effect ↔
      e.SomeApplies request effect e.document.statements := by
  have happlies : ∀ s, s.effect = effect → (e.AppliesIf request truth s ↔ e.Applies request s) := by
    rintro s rfl
    rw [AppliesIf, Applies, h]
  constructor
  · rintro ⟨i, heffect, hs⟩
    exact ⟨_, List.get_mem _ i, heffect, (happlies _ heffect).1 hs⟩
  · rintro ⟨s, hmem, heffect, hs⟩
    obtain ⟨i, rfl⟩ := List.get_of_mem hmem
    exact ⟨i, heffect, (happlies _ heffect).2 hs⟩

theorem forall_idealDecision_eq_allowed_iff :
    (∀ σ, e.idealDecision request σ = .allowed) ↔
      ¬ e.SomeApplies request .deny e.document.statements ∧
        (e.SomeApplies request .allow e.document.statements ∨ e.default = .allowed) := by
  have hdeny : e.SomeAppliesUnder request (fun _ => true) .deny ↔ _ :=
    someAppliesUnder_const_iff (by simp)
  have hallow : e.SomeAppliesUnder request (fun _ => false) .allow ↔ _ :=
    someAppliesUnder_const_iff (by simp)
  unfold idealDecision
  simp only [denyOverrides_eq_allowed_iff]
  rw [← hdeny, ← hallow]
  constructor
  · intro h
    exact ⟨(h fun _ => true).1, (h fun _ => false).2⟩
  · -- every assignment lies between the two
    rintro ⟨hdenies, hallows⟩ σ
    refine ⟨fun h => hdenies (h.mono fun _ _ => rfl), ?_⟩
    exact hallows.imp_left fun h => h.mono fun _ hfalse => absurd hfalse Bool.false_ne_true

/-- **Conditions fail safe.**  A request is allowed exactly if all patterns verify and the ideal
decision allows it whatever the truth of the conditions; if all patterns verify, it is denied
exactly if the ideal decision denies it under some assignment. -/
theorem evaluate_failsafe (e : Engine) (request : Request) :
    (e.evaluate request = .ok .allowed ↔
      (∀ s ∈ e.document.statements, e.Verified s) ∧
        ∀ σ, e.idealDecision request σ = .allowed) ∧
    ((∀ s ∈ e.document.statements, e.Verified s) →
      (e.evaluate request = .ok .denied ↔ ∃ σ, e.idealDecision request σ = .denied)) := by
  have hallowed : e.evaluate request = .ok .allowed ↔
      (∀ s ∈ e.document.statements, e.Verified s) ∧
        ∀ σ, e.idealDecision request σ = .allowed := by
    rw [evaluate_eq_allowed_iff, forall_idealDecision_eq_allowed_iff]
  refine ⟨hallowed, fun hverified => ?_⟩
  rw [evaluate_eq_denied_iff hverified, ne_eq, hallowed, and_iff_right hverified,
    Classical.not_forall]
  -- there are but two decisions
  have hother : ∀ decision : Decision, ¬ decision = .allowed ↔ decision = .denied := by
    rintro (_ | _) <;> simp
  simp only [hother]

/-- Writing the notes is denied because it ought to be where the condition is true. -/
theorem sharedBucket_failsafe :
    (∀ s ∈ sharedBucket.document.statements, sharedBucket.Verified s) ∧
      sharedBucket.idealDecision writeNotes (fun _ => true) = .denied ∧
      sharedBucket.evaluate writeNotes = .ok .denied := by
  have hideal : sharedBucket.idealDecision writeNotes (fun _ => true) = .denied :=
    denyOverrides_eq_denied_iff.2
      (Or.inl ((someAppliesUnder_const_iff (by simp)).2 sharedBucket_denies_writeNotes))
  refine ⟨sharedBucket_verified, hideal, ?_⟩
  exact ((evaluate_failsafe sharedBucket writeNotes).2 sharedBucket_verified).2 ⟨_, hideal⟩

end AccessPolicy.Engine
