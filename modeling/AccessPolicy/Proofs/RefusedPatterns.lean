import AccessPolicy.Proofs.Unverified

/-!
# Why action patterns are refused

A catalog refuses an action pattern for one of five reasons.  Each is a check of its own
(`Catalog.Fails`), the checks have a fixed order (`PatternCheck.order`), and a pattern that fails
several of them is refused for the first (`Catalog.verify_eq_error_iff`).  The pattern `*` is not
checked at all.

A list of patterns has no answer if one of them is refused, and then the first one that is says why;
neither the action nor the other patterns have a part in it.  Otherwise the answer is whether some
pattern covers the action, so that order and repetition do not matter.

Main statement: `Catalog.actionMatches_spec`.
-/

namespace AccessPolicy

/-! ### Checks -/

/-- The service and the name of a pattern stand before and after its first colon. -/
def IsScoped (pattern service name : String) : Prop :=
  pattern = service ++ ":" ++ name ∧ ':' ∉ service.toList

/-- There is only one first colon. -/
theorem IsScoped.unique {pattern service service' name name' : String}
    (h : IsScoped pattern service name) (h' : IsScoped pattern service' name') :
    service' = service ∧ name' = name :=
  append_colon_inj h'.2 h.2 (h'.1.symm.trans h.1)

/-- What an action pattern is checked for. -/
inductive PatternCheck
  /-- It has a colon. -/
  | colon
  /-- Its service is literal. -/
  | literalService
  /-- It has a name. -/
  | name
  /-- There is such a service. -/
  | knownService
  /-- The service has an action that the name describes. -/
  | knownAction

/-- The order in which a pattern is checked. -/
def PatternCheck.order : List PatternCheck :=
  [.colon, .literalService, .name, .knownService, .knownAction]

namespace Catalog
variable {catalog : Catalog} {action pattern service name : String} {patterns : List String}
  {cause : ActionError}

/-- A pattern does not pass a check, for a cause. -/
inductive Fails (catalog : Catalog) (pattern : String) : PatternCheck → ActionError → Prop
  | colon (h : ':' ∉ pattern.toList) : Fails catalog pattern .colon (.unknownAction pattern)
  | literalService {service name : String} (hscoped : IsScoped pattern service name)
      (h : '*' ∈ service.toList ∨ '?' ∈ service.toList) :
      Fails catalog pattern .literalService (.unknownService service)
  | name {service : String} (hscoped : IsScoped pattern service "") :
      Fails catalog pattern .name (.unknownAction pattern)
  | knownService {service name : String} (hscoped : IsScoped pattern service name)
      (h : catalog.actionsFor? service = none) :
      Fails catalog pattern .knownService (.unknownService service)
  | knownAction {service name : String} {actions : Names} (hscoped : IsScoped pattern service name)
      (hactions : catalog.actionsFor? service = some actions)
      (h : ∀ known ∈ actions, Glob.accepts name known = false) :
      Fails catalog pattern .knownAction (.unknownAction pattern)

/-- A pattern is refused for the cause of the first check that it does not pass. -/
def Refuses (catalog : Catalog) (pattern : String) (cause : ActionError) : Prop :=
  pattern ≠ "*" ∧ FirstFailure (catalog.Fails pattern) PatternCheck.order cause

section
variable (h : IsScoped pattern service name)
include h

theorem not_fails_colon : ¬ catalog.Fails pattern .colon cause := by
  intro hfails
  cases hfails with
  | colon hcolon =>
    rw [h.1] at hcolon
    exact hcolon (by simp)

theorem fails_literalService_iff :
    catalog.Fails pattern .literalService cause ↔
      hasWildcard service = true ∧ cause = .unknownService service := by
  rw [hasWildcard_iff]
  constructor
  · intro hfails
    cases hfails with
    | literalService hscoped hwild =>
      obtain ⟨rfl, _⟩ := h.unique hscoped
      exact ⟨hwild, rfl⟩
  · rintro ⟨hwild, rfl⟩
    exact .literalService h hwild

theorem fails_name_iff :
    catalog.Fails pattern .name cause ↔ name = "" ∧ cause = .unknownAction pattern := by
  constructor
  · intro hfails
    cases hfails with
    | name hscoped => exact ⟨(h.unique hscoped).2.symm, rfl⟩
  · rintro ⟨rfl, rfl⟩
    exact .name h

theorem fails_knownService_iff :
    catalog.Fails pattern .knownService cause ↔
      catalog.actionsFor? service = none ∧ cause = .unknownService service := by
  constructor
  · intro hfails
    cases hfails with
    | knownService hscoped hnone =>
      obtain ⟨rfl, _⟩ := h.unique hscoped
      exact ⟨hnone, rfl⟩
  · rintro ⟨hnone, rfl⟩
    exact .knownService h hnone

theorem fails_knownAction_iff {actions : Names}
    (hactions : catalog.actionsFor? service = some actions) :
    catalog.Fails pattern .knownAction cause ↔
      ¬ actions.toList.any (Glob.accepts name) = true ∧ cause = .unknownAction pattern := by
  simp only [Bool.not_eq_true, List.any_eq_false, Std.ExtTreeSet.mem_toList]
  constructor
  · intro hfails
    cases hfails with
    | knownAction hscoped hactions' hnone =>
      obtain ⟨rfl, rfl⟩ := h.unique hscoped
      obtain rfl := Option.some.inj (hactions.symm.trans hactions')
      exact ⟨hnone, rfl⟩
  · rintro ⟨hnone, rfl⟩
    exact .knownAction h hactions hnone

/-- A pattern with a colon is verified by the four checks that are left. -/
theorem reports_verify_of_isScoped (hstar : pattern ≠ "*") :
    (catalog.verify pattern).Reports (catalog.Fails pattern) PatternCheck.order := by
  have hcut : Text.cut? ':' pattern = some (service, name) := Text.cut?_colon_iff.2 h
  unfold verify
  simp only [if_neg hstar, hcut]
  refine .cons (fun _ => not_fails_colon h) ?_
  refine .check (fun _ => fails_literalService_iff h) fun _ => ?_
  refine .check (fun _ => fails_name_iff h) fun _ => ?_
  cases hactions : catalog.actionsFor? service with
  | none => exact .error fun cause => (fails_knownService_iff h).trans (and_iff_right hactions)
  | some actions =>
    have hknown : ∀ cause, ¬ catalog.Fails pattern .knownService cause := by
      intro cause hfails
      cases hactions.symm.trans ((fails_knownService_iff h).1 hfails).1
    refine .cons hknown ?_
    dsimp only
    rw [← ite_not]
    exact .check (fun _ => fails_knownAction_iff h hactions) fun _ => .ok _

end

/-- A pattern without a colon does not pass the first check. -/
theorem reports_verify_of_not_mem (hcolon : ':' ∉ pattern.toList) (hstar : pattern ≠ "*") :
    (catalog.verify pattern).Reports (catalog.Fails pattern) PatternCheck.order := by
  have hcut : Text.cut? ':' pattern = none := Text.cut?_eq_none_iff.2 hcolon
  unfold verify
  simp only [if_neg hstar, hcut]
  refine .error fun cause => ⟨fun hfails => ?_, ?_⟩
  · cases hfails with
    | colon _ => rfl
  · rintro rfl
    exact .colon hcolon

/-- A pattern does not verify exactly if it is refused, for the same cause. -/
theorem verify_eq_error_iff :
    catalog.verify pattern = .error cause ↔ catalog.Refuses pattern cause := by
  by_cases hstar : pattern = "*"
  · subst hstar
    simp [verify, Refuses]
  · rw [Refuses, and_iff_right hstar]
    cases hcut : Text.cut? ':' pattern with
    | none => exact reports_verify_of_not_mem (Text.cut?_eq_none_iff.1 hcut) hstar cause
    | some parts => exact reports_verify_of_isScoped (Text.cut?_colon_iff.1 hcut) hstar cause

theorem verifies_iff_forall_not_refuses :
    catalog.Verifies pattern ↔ ∀ cause, ¬ catalog.Refuses pattern cause := by
  simp only [verifies_iff_forall_ne_error, ne_eq, verify_eq_error_iff]

/-! ### Lists of patterns -/

theorem actionMatches_eq_error_iff_refuses :
    catalog.actionMatches action patterns = .error cause ↔
      FirstFailure catalog.Refuses patterns cause :=
  actionMatches_eq_error_iff.trans (firstFailure_congr fun _ _ => verify_eq_error_iff)

/-- If no pattern is refused, the answer is whether one of them covers the action. -/
theorem actionMatches_of_not_refuses (h : ∀ p ∈ patterns, ∀ cause, ¬ catalog.Refuses p cause) :
    catalog.actionMatches action patterns =
      .ok (decide (∃ p ∈ patterns, PatternCovers action p)) := by
  have hverified : ∀ p ∈ patterns, catalog.Verifies p :=
    fun p hp => verifies_iff_forall_not_refuses.2 (h p hp)
  exact actionMatches_eq_ok_iff.2 ⟨hverified, decide_eq_true_iff⟩

/-- **What a list of patterns is answered.**  There is no answer if a pattern is refused, and the
cause is that of the first one that is; a pattern is refused for the first check it does not pass.
Otherwise the answer is whether a pattern covers the action, which does not depend on how the
patterns are ordered and repeated. -/
theorem actionMatches_spec (catalog : Catalog) (action : String) (patterns : List String) :
    ((∃ cause, catalog.actionMatches action patterns = .error cause) ↔
      ∃ p ∈ patterns, ∃ cause, catalog.Refuses p cause) ∧
    (∀ cause, catalog.actionMatches action patterns = .error cause ↔
      FirstFailure catalog.Refuses patterns cause) ∧
    (∀ pattern cause, catalog.verify pattern = .error cause ↔ catalog.Refuses pattern cause) ∧
    ((∀ p ∈ patterns, ∀ cause, ¬ catalog.Refuses p cause) →
      catalog.actionMatches action patterns =
        .ok (decide (∃ p ∈ patterns, PatternCovers action p)) ∧
      ∀ patterns', (∀ p, p ∈ patterns' ↔ p ∈ patterns) →
        catalog.actionMatches action patterns' = catalog.actionMatches action patterns) := by
  refine ⟨?_, fun _ => actionMatches_eq_error_iff_refuses, fun _ _ => verify_eq_error_iff, ?_⟩
  · simp only [actionMatches_eq_error_iff_refuses]
    exact exists_firstFailure_iff
  · intro h
    have hanswer : catalog.actionMatches action patterns =
        .ok (decide (∃ p ∈ patterns, PatternCovers action p)) := actionMatches_of_not_refuses h
    refine ⟨hanswer, fun patterns' hmem => ?_⟩
    have h' : ∀ p ∈ patterns', ∀ cause, ¬ catalog.Refuses p cause :=
      fun p hp => h p ((hmem p).1 hp)
    have hcovers : (∃ p ∈ patterns', PatternCovers action p) ↔
        ∃ p ∈ patterns, PatternCovers action p := by simp only [hmem]
    rw [actionMatches_of_not_refuses h', hanswer, decide_eq_decide.2 hcovers]

end Catalog

/-! ### A service that is not literal -/

namespace Engine

theorem sharedBucket_refuses :
    sharedBucket.catalog.Refuses "s?:Get*" (.unknownService "s?") := by
  have hscoped : IsScoped "s?:Get*" "s?" "Get*" := ⟨rfl, by decide⟩
  refine ⟨by decide, 1, .literalService, rfl, .literalService hscoped (by decide), ?_⟩
  intro check hcheck cause
  obtain rfl := List.mem_singleton.1 hcheck
  exact Catalog.not_fails_colon hscoped

theorem sharedBucket_not_refuses :
    ∀ p ∈ ["s3:Get*"], ∀ cause, ¬ sharedBucket.catalog.Refuses p cause :=
  List.forall_mem_singleton.2
    (Catalog.verifies_iff_forall_not_refuses.1 sharedBucket_verifies_get)

/-- The first pattern covers the action and the last one has no colon, but the one between them is
the first that is refused.  On its own the first pattern gives an answer, and repeating it changes
nothing. -/
theorem sharedBucket_actionMatches :
    sharedBucket.catalog.actionMatches readNotes.action ["s3:Get*", "s?:Get*", "S3"] =
        .error (.unknownService "s?") ∧
      (∀ p ∈ ["s3:Get*"], ∀ cause, ¬ sharedBucket.catalog.Refuses p cause) ∧
      sharedBucket.catalog.actionMatches readNotes.action ["s3:Get*"] = .ok true ∧
      sharedBucket.catalog.actionMatches readNotes.action ["s3:Get*", "s3:Get*"] = .ok true := by
  obtain ⟨_, hrefused, _, _⟩ := Catalog.actionMatches_spec sharedBucket.catalog readNotes.action
    ["s3:Get*", "s?:Get*", "S3"]
  obtain ⟨_, _, _, hanswer⟩ := Catalog.actionMatches_spec sharedBucket.catalog readNotes.action
    ["s3:Get*"]
  obtain ⟨honce, hrepeated⟩ := hanswer sharedBucket_not_refuses
  have htrue : sharedBucket.catalog.actionMatches readNotes.action ["s3:Get*"] = .ok true := by
    rw [honce, decide_eq_true ⟨_, List.mem_cons_self, readNotes_covered⟩]
  refine ⟨(hrefused _).2 ⟨1, "s?:Get*", rfl, sharedBucket_refuses, ?_⟩, sharedBucket_not_refuses,
    htrue, (hrepeated _ ?_).trans htrue⟩
  · exact sharedBucket_not_refuses
  · simp

end Engine

end AccessPolicy
