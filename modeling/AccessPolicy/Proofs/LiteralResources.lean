import AccessPolicy.Proofs.GreedyWalk
import AccessPolicy.Proofs.Unverified

/-!
# Resources without wildcards

A pattern without wildcards describes itself and nothing else, and every pattern describes at least
itself.  So matching globs and comparing texts come to the same for the former, and matching globs
is never the stricter of the two (`ResourceMatcher.glob_eq_exact`, `ResourceMatcher.glob_of_exact`).

An engine asks its matcher about the resource of the request and the patterns in its resource
clauses, and about nothing else.  Engines whose matchers agree there answer alike, in what they
decide as well as in how they fail (`Engine.evaluate_withMatcher`): a statement applies with the one
if it does with the other (`Engine.applies_withMatcher`), and an answer depends on the statements
through this only (`Engine.effectOf_eq_of_applies`).

Main statement: `Engine.evaluate_literal`.
-/

namespace AccessPolicy

/-! ### Matchers -/

namespace ResourceMatcher
variable {matcher matcher' : ResourceMatcher} {resource pattern : String} {patterns : List String}

@[simp] theorem exact_eq_true_iff : exact resource pattern = true ↔ resource = pattern :=
  decide_eq_true_iff

theorem glob_of_exact (h : exact resource pattern = true) : glob resource pattern = true := by
  rw [exact_eq_true_iff.1 h]
  exact Glob.accepts_self pattern

theorem glob_eq_exact (hstar : '*' ∉ pattern.toList) (hany : '?' ∉ pattern.toList) :
    glob resource pattern = exact resource pattern := by
  have hglob : glob resource pattern = true ↔ resource.toList = pattern.toList :=
    Glob.accepts_iff_describes.trans (Glob.describes_plain_iff hstar hany)
  rw [Bool.eq_iff_iff, hglob, exact_eq_true_iff, String.toList_inj]

/-- A list of patterns is matched alike where each of the patterns is. -/
theorem matchesAny_congr (h : ∀ p ∈ patterns, matcher resource p = matcher' resource p) :
    matcher.matchesAny resource patterns = matcher'.matchesAny resource patterns := by
  unfold matchesAny
  rw [Bool.eq_iff_iff, Bool.and_eq_true, Bool.and_eq_true, List.any_eq_true, List.any_eq_true]
  refine and_congr_right fun _ => exists_congr fun p => and_congr_right fun hp => ?_
  rw [h p hp]

end ResourceMatcher

/-! ### The patterns of a document -/

/-- The patterns in the resource clause of a statement, positive or negative. -/
def Statement.resourcePatterns (s : Statement) : List String :=
  match s.resource with
  | none => []
  | some clause => clause.value.values

/-- The patterns in the resource clauses of a document. -/
def Document.resourcePatterns (d : Document) : List String :=
  d.statements.flatMap Statement.resourcePatterns

namespace Engine
variable {e e' : Engine} {request : Request} {statements : List Statement}
  {matcher matcher' : ResourceMatcher}

/-- An engine that differs in its matcher only. -/
def withMatcher (e : Engine) (matcher : ResourceMatcher) : Engine := { e with matcher }

/-! ### Agreement -/

/-- An answer depends on the statements only through which of them apply. -/
theorem effectOf_eq_of_applies (h : ∀ s ∈ statements, e'.applies request s = e.applies request s) :
    e'.effectOf request statements = e.effectOf request statements := by
  induction statements with
  | nil => rfl
  | cons s rest ih =>
    obtain ⟨hs, hrest⟩ := List.forall_mem_cons.1 h
    rw [effectOf, effectOf, hs, ih hrest]

theorem applies_withMatcher {s : Statement}
    (h : ∀ p ∈ s.resourcePatterns, matcher request.resource p = matcher' request.resource p) :
    (e.withMatcher matcher).applies request s = (e.withMatcher matcher').applies request s := by
  have hresource : (e.withMatcher matcher).resourceApplies request.resource s.resource =
      (e.withMatcher matcher').resourceApplies request.resource s.resource := by
    unfold Statement.resourcePatterns at h
    cases hclause : s.resource with
    | none => rfl
    | some clause =>
      -- positive or negative, what is asked of the patterns is the same
      rw [hclause] at h
      exact congrArg (· != clause.negated) (ResourceMatcher.matchesAny_congr h)
  rw [applies, applies, hresource]
  -- the matcher has no part in the action clause
  rfl

/-- Engines that match the resource of a request alike with all patterns of a document answer the
request alike. -/
theorem evaluate_withMatcher (h : ∀ p ∈ e.document.resourcePatterns,
      matcher request.resource p = matcher' request.resource p) :
    (e.withMatcher matcher).evaluate request = (e.withMatcher matcher').evaluate request := by
  have heffect : (e.withMatcher matcher).effectOf request e.document.statements =
      (e.withMatcher matcher').effectOf request e.document.statements := by
    refine effectOf_eq_of_applies fun s hs => applies_withMatcher fun p hp => ?_
    exact h p (List.mem_flatMap.2 ⟨s, hs, hp⟩)
  exact congrArg (Except.map _) heffect

/-- **Globs and exact comparison agree away from wildcards.**  What is described by comparing texts
is described by globs, and both are the same for patterns without wildcards.  So, if there are no
wildcards in the resource clauses of a document, it does not matter which of the two an engine
matches with: it decides alike and fails alike. -/
theorem evaluate_literal :
    (∀ resource pattern, ResourceMatcher.exact resource pattern = true →
      ResourceMatcher.glob resource pattern = true) ∧
    (∀ resource pattern, '*' ∉ pattern.toList → '?' ∉ pattern.toList →
      ResourceMatcher.glob resource pattern = ResourceMatcher.exact resource pattern) ∧
    ∀ e : Engine, (∀ p ∈ e.document.resourcePatterns, '*' ∉ p.toList ∧ '?' ∉ p.toList) →
      ∀ request, (e.withMatcher .exact).evaluate request =
        (e.withMatcher .glob).evaluate request := by
  refine ⟨fun _ _ => ResourceMatcher.glob_of_exact, fun _ _ => ResourceMatcher.glob_eq_exact, ?_⟩
  intro e hliteral request
  refine evaluate_withMatcher fun p hp => ?_
  obtain ⟨hstar, hany⟩ := hliteral p hp
  exact (ResourceMatcher.glob_eq_exact hstar hany).symm

/-! ### A shared file -/

/-- The notes of the shared bucket are read by everybody, and nothing but its inbox is written. -/
def sharedNotes : Engine :=
  { sharedBucket with
    document.statements := [
      { effect := .allow
        action := .is (.singleton readNotes.action readNotes.action_ne_empty)
        resource := some (.is ⟨["arn:aws:s3:::shared/index", "arn:aws:s3:::shared/notes"],
          by decide, by decide⟩)
        principal := none
        condition := none },
      { effect := .deny
        action := .isNot (.singleton readNotes.action readNotes.action_ne_empty)
        resource := some (.isNot (.singleton "arn:aws:s3:::shared/inbox" (by decide)))
        principal := none
        condition := none }] }

theorem sharedNotes_allows_readNotes :
    (sharedNotes.withMatcher .exact).evaluate readNotes = .ok .allowed := by
  have hread : sharedBucket.catalog.Verifies readNotes.action :=
    sharedBucket_verifies "GetObject" (by decide) List.mem_cons_self (Glob.accepts_self _)
  have hcovered : PatternCovers readNotes.action readNotes.action :=
    Or.inr ⟨"s3", "GetObject", "GetObject", by decide, rfl, Or.inl rfl, Glob.accepts_self _⟩
  have hverified : ∀ s ∈ sharedNotes.document.statements,
      (sharedNotes.withMatcher .exact).Verified s := by
    refine List.forall_mem_cons.2 ⟨?_, List.forall_mem_singleton.2 ?_⟩
    · exact List.forall_mem_singleton.2 hread
    · exact List.forall_mem_singleton.2 hread
  have hnotes : ResourceMatcher.exact readNotes.resource "arn:aws:s3:::shared/notes" = true :=
    ResourceMatcher.exact_eq_true_iff.2 rfl
  refine evaluate_eq_allowed_iff.2 ⟨hverified, ?_, Or.inl ?_⟩
  · rintro ⟨s, hs, heffect, happlies⟩
    rcases List.mem_cons.1 hs with rfl | hs
    · cases heffect
    · -- reading is what the denial leaves out
      obtain rfl := List.mem_singleton.1 hs
      exact happlies.1.1 ⟨_, List.mem_cons_self, hcovered⟩
  · refine ⟨_, List.mem_cons_self, rfl, ⟨?_, ?_⟩, Or.inl rfl⟩
    · exact ⟨_, List.mem_cons_self, hcovered⟩
    · exact ⟨by decide, _, List.mem_cons_of_mem _ List.mem_cons_self, by decide, hnotes⟩

/-- The notes can be read, whether their name is compared or matched as a glob. -/
theorem sharedNotes_literal :
    (∀ p ∈ sharedNotes.document.resourcePatterns, '*' ∉ p.toList ∧ '?' ∉ p.toList) ∧
      (sharedNotes.withMatcher .exact).evaluate readNotes = .ok .allowed ∧
      (sharedNotes.withMatcher .glob).evaluate readNotes = .ok .allowed ∧
      ResourceMatcher.glob "arn:aws:s3:::shared/*" "arn:aws:s3:::shared/*" = true ∧
      ResourceMatcher.glob readNotes.resource "arn:aws:s3:::shared/index" =
        ResourceMatcher.exact readNotes.resource "arn:aws:s3:::shared/index" := by
  have hliteral : ∀ p ∈ sharedNotes.document.resourcePatterns,
      '*' ∉ p.toList ∧ '?' ∉ p.toList := by
    decide
  obtain ⟨hdescribed, hsame, hanswers⟩ := evaluate_literal
  exact ⟨hliteral, sharedNotes_allows_readNotes,
    (hanswers sharedNotes hliteral readNotes).symm.trans sharedNotes_allows_readNotes,
    hdescribed _ _ (ResourceMatcher.exact_eq_true_iff.2 rfl), hsame _ _ (by decide) (by decide)⟩

end Engine

end AccessPolicy
