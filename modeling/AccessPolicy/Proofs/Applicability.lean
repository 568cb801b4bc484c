import AccessPolicy.Engine.Evaluation
import AccessPolicy.Proofs.Patterns

/-!
# When a statement applies to a request

`Engine.Applies` says when a statement applies, clause by clause: its action clause and its resource
clause hold (`Engine.ClausesHold`), and it has no condition or denies.  A clause holds if its list
matches, or fails to match where the element is the negative one (`Clause.Holds`).

Main statement: `Engine.applies_eq_ok_iff`, the computed answer is given exactly when all action
patterns of the statement verify, and it is then the answer to `Engine.Applies`.
-/

namespace AccessPolicy

/-! ### Clauses -/

/-- Whether a clause holds, where `matched` says what it is for its value to match. -/
def Clause.Holds {α : Type} (matched : α → Prop) : Clause α → Prop
  | .is a => matched a
  | .isNot a => ¬ matched a

instance {α : Type} (matched : α → Prop) [DecidablePred matched] :
    DecidablePred (Clause.Holds matched)
  | .is a => inferInstanceAs (Decidable (matched a))
  | .isNot a => inferInstanceAs (Decidable (¬ matched a))

/-- The match of the value of a clause, turned over if the clause is negative, is the clause. -/
theorem Clause.bne_negated_iff {α : Type} {matched : α → Prop} {clause : Clause α} {answer : Bool}
    (h : answer = true ↔ matched clause.value) :
    (answer != clause.negated) = true ↔ clause.Holds matched := by
  cases clause with
  | is a =>
    simp only [negated, Bool.bne_false]
    exact h
  | isNot a =>
    simp only [negated, Bool.bne_true, Bool.not_eq_true', ← Bool.not_eq_true]
    exact not_congr h

/-- Some pattern of an action clause stands for the action, or none does. -/
def ActionHolds (action : String) (clause : Clause ValueList) : Prop :=
  clause.Holds fun list => ∃ p ∈ list.values, PatternCovers action p

/-- The matcher accepts the resource for some pattern of a resource clause, or for none.  Empty
resources and patterns match nothing; a missing clause holds. -/
def ResourceHolds (matcher : ResourceMatcher) (resource : String) :
    Option (Clause ValueList) → Prop
  | none => True
  | some clause =>
    clause.Holds fun list => resource ≠ "" ∧ ∃ p ∈ list.values, p ≠ "" ∧ matcher resource p = true

instance (action : String) (clause : Clause ValueList) : Decidable (ActionHolds action clause) :=
  inferInstanceAs (Decidable (clause.Holds _))

instance (matcher : ResourceMatcher) (resource : String) :
    DecidablePred (ResourceHolds matcher resource)
  | none => inferInstanceAs (Decidable True)
  | some clause => inferInstanceAs (Decidable (clause.Holds _))

/-! ### Statements -/

namespace Engine
variable {e : Engine} {request : Request} {s : Statement}

/-- The action clause and the resource clause of a statement hold for a request. -/
def ClausesHold (e : Engine) (request : Request) (s : Statement) : Prop :=
  ActionHolds request.action s.action ∧ ResourceHolds e.matcher request.resource s.resource

/-- A statement applies if its clauses hold and it is unconditional or denies. -/
def Applies (e : Engine) (request : Request) (s : Statement) : Prop :=
  e.ClausesHold request s ∧ (s.condition = none ∨ s.effect = .deny)

/-- All action patterns of a statement verify. -/
def Verified (e : Engine) (s : Statement) : Prop :=
  ∀ p ∈ s.action.value.values, e.catalog.Verifies p

instance (e : Engine) (request : Request) : DecidablePred (e.ClausesHold request) :=
  fun _ => inferInstanceAs (Decidable (_ ∧ _))

instance (e : Engine) (request : Request) : DecidablePred (e.Applies request) :=
  fun s => inferInstanceAs (Decidable (_ ∧ (s.condition = none ∨ _)))

theorem actionApplies_eq_ok_iff {action : String} {clause : Clause ValueList} {answer : Bool} :
    e.actionApplies action clause = .ok answer ↔
      (∀ p ∈ clause.value.values, e.catalog.Verifies p) ∧
        (answer = true ↔ ActionHolds action clause) := by
  unfold actionApplies actionMatches
  rw [Except.map_eq_ok_iff]
  constructor
  · rintro ⟨matched, hmatched, rfl⟩
    obtain ⟨hverified, hiff⟩ := Catalog.actionMatches_eq_ok_iff.1 hmatched
    exact ⟨hverified, Clause.bne_negated_iff hiff⟩
  · rintro ⟨hverified, hiff⟩
    refine ⟨decide (∃ p ∈ clause.value.values, PatternCovers action p),
      Catalog.actionMatches_eq_ok_iff.2 ⟨hverified, decide_eq_true_iff⟩, ?_⟩
    rw [Bool.eq_iff_iff, hiff]
    exact Clause.bne_negated_iff decide_eq_true_iff

@[simp] theorem resourceApplies_iff {resource : String} {clause : Option (Clause ValueList)} :
    e.resourceApplies resource clause = true ↔ ResourceHolds e.matcher resource clause := by
  cases clause with
  | none => simp [resourceApplies, ResourceHolds]
  | some clause =>
    refine Clause.bne_negated_iff ?_
    simp [resourceMatches, ResourceMatcher.matchesAny]

@[simp] theorem conditionApplies_iff :
    conditionApplies s = true ↔ s.condition = none ∨ s.effect = .deny := by
  simp [conditionApplies]

theorem applies_eq_ok_iff {answer : Bool} :
    e.applies request s = .ok answer ↔
      e.Verified s ∧ (answer = true ↔ e.Applies request s) := by
  unfold applies
  rw [Except.map_eq_ok_iff]
  -- the conjunction that is computed, for any answer to the action clause that is right
  have hclauses : ∀ action : Bool, (action = true ↔ ActionHolds request.action s.action) →
      ((action && e.resourceApplies request.resource s.resource && conditionApplies s) = true ↔
        e.Applies request s) := by
    intro action haction
    rw [Bool.and_eq_true, Bool.and_eq_true, haction, resourceApplies_iff, conditionApplies_iff]
    rfl
  constructor
  · rintro ⟨action, haction, rfl⟩
    obtain ⟨hverified, hiff⟩ := actionApplies_eq_ok_iff.1 haction
    exact ⟨hverified, hclauses action hiff⟩
  · rintro ⟨hverified, hiff⟩
    refine ⟨decide (ActionHolds request.action s.action),
      actionApplies_eq_ok_iff.2 ⟨hverified, decide_eq_true_iff⟩, ?_⟩
    rw [Bool.eq_iff_iff, hiff]
    exact hclauses _ decide_eq_true_iff

/-- A statement whose patterns verify either applies or does not. -/
theorem Verified.applies_eq_ok (h : e.Verified s) (request : Request) :
    e.applies request s = .ok (decide (e.Applies request s)) :=
  applies_eq_ok_iff.2 ⟨h, decide_eq_true_iff⟩

end Engine

end AccessPolicy
