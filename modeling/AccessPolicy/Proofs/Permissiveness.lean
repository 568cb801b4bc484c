import AccessPolicy.Proofs.Outcomes
import AccessPolicy.Proofs.StatementOrder
import Mathlib.Logic.Relation

/-!
# Edits that widen what is allowed

An edit of a policy widens it if it can only turn denials into permissions.  There are two kinds,
`Widening`: a permission comes in or a denial goes, or one statement is edited.  An edit of a
statement (`Statement.Widening`) makes a permission apply to more requests or a denial to fewer.
What it does to a list of patterns depends on the effect of the statement and on the form of the
clause, so it is said once for clauses (`Clause.Widening`) and taken backwards for denials.

No edit makes a permission stop to apply or a denial begin to (`Widening.noStricter`), and so none
of finitely many does; verification plays no part in this, and the documents in between need not
lead to decisions.  As an engine that decides at all decides as its statements say
(`Engine.evaluate_eq_ok_iff`), what was allowed stays allowed.

Main statement: `Engine.evaluate_widened`.
-/

namespace AccessPolicy

/-! ### Edits -/

/-- The second list has one value more than the first, at any place. -/
def ValueList.Gains (list list' : ValueList) : Prop :=
  ∃ before after v, list.values = before ++ after ∧ list'.values = before ++ v :: after

/-- A positive clause gets a pattern more, or a negative one keeps all but one of its patterns. -/
inductive Clause.Widening : Clause ValueList → Clause ValueList → Prop
  | add {list list' : ValueList} (h : list.Gains list') : Widening (.is list) (.is list')
  | remove {list list' : ValueList} (h : list'.Gains list) : Widening (.isNot list) (.isNot list')

/-- One edit by which a permission applies to more requests, or a denial to fewer. -/
inductive Statement.Widening (s : Statement) : Statement → Prop
  | allowAction {clause : Clause ValueList} (heffect : s.effect = .allow)
      (h : s.action.Widening clause) : Widening s { s with action := clause }
  | allowResource {clause clause' : Clause ValueList} (heffect : s.effect = .allow)
      (hresource : s.resource = some clause) (h : clause.Widening clause') :
      Widening s { s with resource := some clause' }
  | dropResource (heffect : s.effect = .allow) : Widening s { s with resource := none }
  | dropCondition (heffect : s.effect = .allow) : Widening s { s with condition := none }
  | denyAction {clause : Clause ValueList} (heffect : s.effect = .deny)
      (h : clause.Widening s.action) : Widening s { s with action := clause }
  | denyResource {clause clause' : Clause ValueList} (heffect : s.effect = .deny)
      (hresource : s.resource = some clause) (h : clause'.Widening clause) :
      Widening s { s with resource := some clause' }
  | addResource (heffect : s.effect = .deny) (hresource : s.resource = none)
      (clause : Clause ValueList) : Widening s { s with resource := some clause }

/-- One edit that widens a policy. -/
inductive Widening : List Statement → List Statement → Prop
  | insertAllow (before after : List Statement) {s : Statement} (heffect : s.effect = .allow) :
      Widening (before ++ after) (before ++ s :: after)
  | deleteDeny (before after : List Statement) {s : Statement} (heffect : s.effect = .deny) :
      Widening (before ++ s :: after) (before ++ after)
  | edit (before after : List Statement) {s s' : Statement} (h : s.Widening s') :
      Widening (before ++ s :: after) (before ++ s' :: after)

/-! ### Clauses -/

theorem ValueList.Gains.subset {list list' : ValueList} (h : list.Gains list') :
    list.values ⊆ list'.values := by
  obtain ⟨before, after, v, hlist, hlist'⟩ := h
  rw [hlist, hlist']
  exact List.append_subset.2
    ⟨List.subset_append_left _ _, fun _ hp => List.mem_append_right _ (List.mem_cons_of_mem _ hp)⟩

namespace Clause.Widening
variable {clause clause' : Clause ValueList}

/-- A wider clause holds wherever the clause does, if more patterns match more. -/
theorem holds {matched : ValueList → Prop} (h : clause.Widening clause')
    (hmono : ∀ list list' : ValueList, list.values ⊆ list'.values → matched list → matched list')
    (hholds : clause.Holds matched) : clause'.Holds matched := by
  cases h with
  | add hgains => exact hmono _ _ hgains.subset hholds
  | remove hgains => exact fun hmatched => hholds (hmono _ _ hgains.subset hmatched)

theorem actionHolds {action : String} (h : clause.Widening clause') :
    ActionHolds action clause → ActionHolds action clause' := by
  apply h.holds
  rintro list list' hsubset ⟨p, hp, hcovers⟩
  exact ⟨p, hsubset hp, hcovers⟩

theorem resourceHolds {matcher : ResourceMatcher} {resource : String}
    (h : clause.Widening clause') :
    ResourceHolds matcher resource (some clause) →
      ResourceHolds matcher resource (some clause') := by
  apply h.holds
  rintro list list' hsubset ⟨hresource, p, hp, hmatch⟩
  exact ⟨hresource, p, hsubset hp, hmatch⟩

end Clause.Widening

/-! ### Statements -/

namespace Statement.Widening
variable {e : Engine} {request : Request} {s s' : Statement}

theorem effect_eq (h : s.Widening s') : s'.effect = s.effect := by
  cases h <;> rfl

/-- A permission that is edited still applies where it did. -/
theorem applies_of_allow (h : s.Widening s') (heffect : s.effect = .allow)
    (happlies : e.Applies request s) : e.Applies request s' := by
  obtain ⟨⟨haction, hresource⟩, hcondition⟩ := happlies
  cases h with
  | allowAction _ h => exact ⟨⟨h.actionHolds haction, hresource⟩, hcondition⟩
  | allowResource _ hsome h =>
    rw [hsome] at hresource
    exact ⟨⟨haction, h.resourceHolds hresource⟩, hcondition⟩
  | dropResource _ => exact ⟨⟨haction, trivial⟩, hcondition⟩
  | dropCondition _ => exact ⟨⟨haction, hresource⟩, Or.inl rfl⟩
  | denyAction hdeny | denyResource hdeny | addResource hdeny =>
    rw [hdeny] at heffect
    cases heffect

/-- A denial that is edited applies only where it did. -/
theorem applies_of_deny (h : s.Widening s') (heffect : s.effect = .deny)
    (happlies : e.Applies request s') : e.Applies request s := by
  obtain ⟨⟨haction, hresource⟩, _⟩ := happlies
  refine ⟨?_, Or.inr heffect⟩
  cases h with
  | denyAction _ h => exact ⟨h.actionHolds haction, hresource⟩
  | denyResource _ hsome h =>
    refine ⟨haction, ?_⟩
    rw [hsome]
    exact h.resourceHolds hresource
  | addResource _ hnone =>
    refine ⟨haction, ?_⟩
    rw [hnone]
    trivial
  | allowAction hallow | allowResource hallow | dropResource hallow | dropCondition hallow =>
    rw [hallow] at heffect
    cases heffect

end Statement.Widening

/-! ### Policies -/

namespace Engine
variable {e : Engine} {request : Request} {statements statements' statements'' : List Statement}

/-- To a request some permission still applies if one did, and no denial does unless one did. -/
structure NoStricter (e : Engine) (request : Request) (statements statements' : List Statement) :
    Prop where
  allows : e.SomeApplies request .allow statements → e.SomeApplies request .allow statements'
  denies : e.SomeApplies request .deny statements' → e.SomeApplies request .deny statements

theorem NoStricter.trans (h : e.NoStricter request statements statements')
    (h' : e.NoStricter request statements' statements'') :
    e.NoStricter request statements statements'' where
  allows hallows := h'.allows (h.allows hallows)
  denies hdenies := h.denies (h'.denies hdenies)

@[simp] theorem someApplies_append {effect : Effect} :
    e.SomeApplies request effect (statements ++ statements') ↔
      e.SomeApplies request effect statements ∨ e.SomeApplies request effect statements' := by
  simp only [SomeApplies, List.mem_append, or_and_right, exists_or]

/-- What stands around edited statements plays no part. -/
theorem NoStricter.append (before after : List Statement)
    (h : e.NoStricter request statements statements') :
    e.NoStricter request (before ++ (statements ++ after)) (before ++ (statements' ++ after)) := by
  constructor
  · simp only [someApplies_append]
    exact Or.imp_right (Or.imp_left h.allows)
  · simp only [someApplies_append]
    exact Or.imp_right (Or.imp_left h.denies)

theorem someApplies_singleton {effect : Effect} {s : Statement} :
    e.SomeApplies request effect [s] ↔ s.effect = effect ∧ e.Applies request s := by
  simp

end Engine

/-- One edit makes a policy no stricter for any request. -/
theorem Widening.noStricter {statements statements' : List Statement}
    (h : Widening statements statements') (e : Engine) (request : Request) :
    e.NoStricter request statements statements' := by
  cases h with
  | @insertAllow before after s heffect =>
    have hone : e.NoStricter request [] [s] := by
      constructor
      · rintro ⟨_, hmem, _⟩
        cases hmem
      · rw [Engine.someApplies_singleton, heffect]
        rintro ⟨hdeny, _⟩
        cases hdeny
    exact hone.append before after
  | @deleteDeny before after s heffect =>
    have hone : e.NoStricter request [s] [] := by
      constructor
      · rw [Engine.someApplies_singleton, heffect]
        rintro ⟨hallow, _⟩
        cases hallow
      · rintro ⟨_, hmem, _⟩
        cases hmem
    exact hone.append before after
  | @edit before after s s' h =>
    have hone : e.NoStricter request [s] [s'] := by
      constructor
      · rw [Engine.someApplies_singleton, Engine.someApplies_singleton, h.effect_eq]
        rintro ⟨heffect, happlies⟩
        exact ⟨heffect, h.applies_of_allow heffect happlies⟩
      · rw [Engine.someApplies_singleton, Engine.someApplies_singleton, h.effect_eq]
        rintro ⟨heffect, happlies⟩
        exact ⟨heffect, h.applies_of_deny heffect happlies⟩
    exact hone.append before after

namespace Engine
variable {e : Engine} {request : Request} {statements statements' : List Statement}

/-- Nor do finitely many edits. -/
theorem noStricter_of_edits (h : Relation.ReflTransGen Widening statements statements') :
    e.NoStricter request statements statements' := by
  induction h with
  | refl => exact ⟨id, id⟩
  | tail _ hedit ih => exact ih.trans (hedit.noStricter e request)

/-- **Wider policies allow no less.**  If finitely many widening edits lead from a policy to another
and the engine decides on a request by either of them, then what the first allows the second
allows. -/
theorem evaluate_widened (e : Engine) (request : Request) (statements : List Statement)
    (hedits : Relation.ReflTransGen Widening e.document.statements statements)
    (hallowed : e.evaluate request = .ok .allowed) (answer : Decision)
    (hanswer : (e.withStatements statements).evaluate request = .ok answer) :
    answer = .allowed := by
  have hstricter : e.NoStricter request e.document.statements statements :=
    noStricter_of_edits hedits
  obtain ⟨_, hdenies, hallows⟩ := evaluate_eq_allowed_iff.1 hallowed
  obtain ⟨_, rfl⟩ := evaluate_eq_ok_iff.1 hanswer
  apply denyOverrides_eq_allowed_iff.2
  exact ⟨fun h => hdenies (hstricter.denies h), hallows.imp_left hstricter.allows⟩

/-- Everybody reads and writes everything: the first statement of the shared bucket alone, without
its resource clause. -/
def openStatements : List Statement :=
  (sharedBucket.document.statements.take 1).map fun s => { s with resource := none }

/-- The shared bucket is opened in three edits.  After the first one, which makes an exception from
the denial, a pattern does not verify; the second one deletes the denial with it.  The notes can be
read before and after. -/
theorem openStatements_allow_readNotes :
    Relation.ReflTransGen Widening sharedBucket.document.statements openStatements ∧
      sharedBucket.evaluate readNotes = .ok .allowed ∧
      (sharedBucket.withStatements openStatements).evaluate readNotes = .ok .allowed := by
  have hgains : ValueList.Gains ⟨["s3:Get*"], by decide, by decide⟩
      ⟨["s3:Get*", "s3:Putt*"], by decide, by decide⟩ := ⟨["s3:Get*"], [], "s3:Putt*", rfl, rfl⟩
  have hexcept : Widening sharedBucket.document.statements _ :=
    .edit [_] [] (.denyAction rfl (.remove hgains))
  have hedits : Relation.ReflTransGen Widening sharedBucket.document.statements openStatements :=
    ((Relation.ReflTransGen.single hexcept).tail (.deleteDeny [_] [] rfl)).tail
      (.edit [] [] (.dropResource rfl))
  have hverified : ∀ s ∈ openStatements, (sharedBucket.withStatements openStatements).Verified s :=
    List.forall_mem_singleton.2 (List.forall_mem_cons.1 sharedBucket_verified).1
  have hanswer : (sharedBucket.withStatements openStatements).evaluate readNotes =
      .ok ((sharedBucket.withStatements openStatements).decision readNotes) :=
    evaluate_eq_decision hverified
  have hallowed := evaluate_widened sharedBucket readNotes openStatements hedits
    sharedBucket_allows_readNotes _ hanswer
  exact ⟨hedits, sharedBucket_allows_readNotes, hallowed ▸ hanswer⟩

end Engine

end AccessPolicy
