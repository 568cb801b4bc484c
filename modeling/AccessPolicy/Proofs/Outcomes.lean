import AccessPolicy.Proofs.Unverified

/-!
# Which decision, and whether there is one

Two questions about a request can be kept apart.  Which decision the statements amount to
(`Engine.decision`) is settled by their clauses and effects; no catalog has a part in it.  Whether
the engine gets as far as a decision (`Engine.Decides`) is settled by the catalog: all patterns
verify, or a denial comes before the first that does not.

Main statement: `Engine.evaluate_eq_ok_iff`, the engine answers with that decision exactly if it
gets so far.
-/

namespace AccessPolicy.Engine
variable {e : Engine} {request : Request} {statements : List Statement}

/-- All patterns verify, or a denial comes before the first that does not. -/
def Decides (e : Engine) (request : Request) : Prop :=
  (∀ s ∈ e.document.statements, e.Verified s) ∨
    e.DeniesBefore request e.document.statements e.document.statements.length

theorem DeniesBefore.someApplies {i : Nat} (h : e.DeniesBefore request statements i) :
    e.SomeApplies request .deny statements := by
  obtain ⟨j, s, _, hget, ⟨heffect, happlies⟩, _⟩ := h
  exact ⟨s, List.mem_of_getElem? hget, heffect, happlies⟩

/-- A denial settles the decision. -/
theorem decision_eq_denied (h : e.SomeApplies request .deny e.document.statements) :
    e.decision request = .denied :=
  denyOverrides_eq_denied_iff.2 (Or.inl h)

theorem evaluate_of_deniesBefore
    (h : e.DeniesBefore request e.document.statements e.document.statements.length) :
    e.evaluate request = .ok (e.decision request) := by
  have hdeny : e.effectOf request e.document.statements = .ok (some .deny) :=
    effectOf_eq_deny_iff.2 h
  rw [evaluate, hdeny, decision_eq_denied h.someApplies]
  rfl

/-- An engine that answers gives the decision that its statements amount to, and it answers exactly
if it gets so far. -/
theorem evaluate_eq_ok_iff {answer : Decision} :
    e.evaluate request = .ok answer ↔ e.Decides request ∧ answer = e.decision request := by
  constructor
  · intro h
    have hdecides : e.Decides request := by
      obtain ⟨outcome, houtcome, _⟩ := Except.map_eq_ok_iff.1 h
      by_cases hdeny : outcome = some .deny
      · rw [hdeny] at houtcome
        exact Or.inr (effectOf_eq_deny_iff.1 houtcome)
      · exact Or.inl (verified_of_effectOf houtcome hdeny)
    refine ⟨hdecides, ?_⟩
    rcases hdecides with hverified | hdenies
    · rw [evaluate_eq_decision hverified] at h
      exact (Except.ok.inj h).symm
    · rw [evaluate_of_deniesBefore hdenies] at h
      exact (Except.ok.inj h).symm
  · rintro ⟨hverified | hdenies, rfl⟩
    · exact evaluate_eq_decision hverified
    · exact evaluate_of_deniesBefore hdenies

end AccessPolicy.Engine
