import AccessPolicy.Proofs.RefusedPatterns
import AccessPolicy.Proofs.WholeActions

/-!
# Verified patterns are live

A catalog vouches for a pattern only if the pattern stands for one of the actions in it.  A pattern
is verified by looking for an action that its name describes, and matched by cutting the action at
its first colon; as a service has no colon, the cut finds the service and the action again, even if
the name of the action has colons (`patternCovers_of_accepts`).  So what was found in verifying is
matched (`Catalog.Verifies.exists_covered`).

The other way round, a pattern that describes an action of the catalog verifies, if its service can
be written in a pattern at all: colons and wildcards cannot (`Catalog.verifies_of_accepts`).

Main statement: `Catalog.actionMatches_live`.
-/

namespace AccessPolicy

/-- A pattern whose name describes the name of an action of its service stands for the action. -/
theorem patternCovers_of_accepts {service name known : String} (hservice : ':' ∉ service.toList)
    (haccepts : Glob.accepts name known = true) :
    PatternCovers (service ++ ":" ++ known) (service ++ ":" ++ name) :=
  Or.inr ⟨service, name, known, hservice, rfl, Or.inl rfl, haccepts⟩

namespace Catalog
variable {catalog : Catalog} {action pattern service name known : String} {actions : Names}

/-- Verifying has found an action that the pattern stands for. -/
theorem Verifies.exists_covered (h : catalog.Verifies pattern) (hstar : pattern ≠ "*") :
    ∃ service name, IsScoped pattern service name ∧
      ∃ actions known, catalog.actionsFor? service = some actions ∧ known ∈ actions ∧
        PatternCovers (service ++ ":" ++ known) pattern := by
  obtain ⟨_, hverify⟩ := h
  rcases verify_eq_ok_iff.1 hverify with ⟨heq, _⟩ |
    ⟨service, name, actions, known, rfl, hservice, _, _, hactions, hknown, haccepts, _⟩
  · exact absurd heq hstar
  · have hcovers := patternCovers_of_accepts hservice haccepts
    exact ⟨service, name, ⟨rfl, hservice⟩, actions, known, hactions, hknown, hcovers⟩

/-- A pattern verifies by any action of its service that its name describes. -/
theorem verifies_of_accepts (hactions : catalog.actionsFor? service = some actions)
    (hknown : known ∈ actions) (hcolon : ':' ∉ service.toList)
    (hwild : hasWildcard service = false) (hname : name ≠ "")
    (haccepts : Glob.accepts name known = true) : catalog.Verifies (service ++ ":" ++ name) :=
  ⟨.scoped service name, verify_eq_ok_iff.2 (Or.inr ⟨service, name, actions, known, rfl, hcolon,
    hwild, hname, hactions, hknown, haccepts, rfl⟩)⟩

/-- A pattern alone matches an action if it verifies and stands for it. -/
theorem actionMatches_singleton (h : catalog.Verifies pattern)
    (hcovers : PatternCovers action pattern) :
    catalog.actionMatches action [pattern] = .ok true :=
  (actionMatches_eq_ok_true_iff (List.forall_mem_singleton.2 h)).2
    ⟨pattern, List.mem_singleton_self pattern, hcovers⟩

/-- **Verified patterns are exactly the live ones.**  If a list of patterns has an answer, each of
them other than `*` has a service of the catalog and matches an action that this service has there.
Conversely, if a service is written without colons and wildcards, then a pattern of this service
with a name that describes one of its actions verifies and matches the action; so does the action,
taken as a pattern. -/
theorem actionMatches_live (catalog : Catalog) :
    (∀ action patterns answer, catalog.actionMatches action patterns = .ok answer →
      ∀ pattern ∈ patterns, pattern ≠ "*" → ∃ service name, IsScoped pattern service name ∧
        catalog.hasService service = true ∧
        ∃ actions known, catalog.actionsFor? service = some actions ∧ known ∈ actions ∧
          catalog.actionMatches (service ++ ":" ++ known) [pattern] = .ok true) ∧
    ∀ service actions known, catalog.actionsFor? service = some actions → known ∈ actions →
      known ≠ "" → ':' ∉ service.toList → '*' ∉ service.toList → '?' ∉ service.toList →
      (∀ name, name ≠ "" → Glob.accepts name known = true →
        catalog.Verifies (service ++ ":" ++ name) ∧
        catalog.actionMatches (service ++ ":" ++ known) [service ++ ":" ++ name] = .ok true) ∧
      catalog.Verifies (service ++ ":" ++ known) ∧
      catalog.actionMatches (service ++ ":" ++ known) [service ++ ":" ++ known] = .ok true := by
  constructor
  · intro action patterns answer hanswer pattern hpattern hstar
    have hverifies : catalog.Verifies pattern :=
      (actionMatches_eq_ok_iff.1 hanswer).1 pattern hpattern
    obtain ⟨service, name, hscoped, actions, known, hactions, hknown, hcovers⟩ :=
      hverifies.exists_covered hstar
    have hservice : catalog.hasService service = true := by
      rw [hasService_eq_isSome, hactions, Option.isSome_some]
    exact ⟨service, name, hscoped, hservice, actions, known, hactions, hknown,
      actionMatches_singleton hverifies hcovers⟩
  · intro service actions known hactions hknown hne hcolon hstar hany
    have hwild : hasWildcard service = false := by
      rw [Bool.eq_false_iff, ne_eq, hasWildcard_iff, not_or]
      exact ⟨hstar, hany⟩
    have hlive : ∀ name, name ≠ "" → Glob.accepts name known = true →
        catalog.Verifies (service ++ ":" ++ name) ∧
        catalog.actionMatches (service ++ ":" ++ known) [service ++ ":" ++ name] = .ok true := by
      intro name hname haccepts
      have hverifies := verifies_of_accepts hactions hknown hcolon hwild hname haccepts
      have hcovers := patternCovers_of_accepts hcolon haccepts
      exact ⟨hverifies, actionMatches_singleton hverifies hcovers⟩
    -- the action is described by its own name
    exact ⟨hlive, hlive known hne (Glob.accepts_self known)⟩

/-- A catalog in which the name of an action has a colon and a wildcard. -/
def tagCatalog : Catalog := .ofPairs [("s3", ["GetTags:Key?"])]

/-- The pattern is verified by the one action there is, and matches it. -/
theorem tagCatalog_live :
    tagCatalog.actionMatches "s3" ["*", "s3:*:Key?"] = .ok true ∧
      (∃ service name, IsScoped "s3:*:Key?" service name ∧ tagCatalog.hasService service = true ∧
        ∃ actions known, tagCatalog.actionsFor? service = some actions ∧ known ∈ actions ∧
          tagCatalog.actionMatches (service ++ ":" ++ known) ["s3:*:Key?"] = .ok true) ∧
      tagCatalog.Verifies "s3:*:Key?" ∧
      tagCatalog.actionMatches "s3:GetTags:Key?" ["s3:*:Key?"] = .ok true ∧
      tagCatalog.actionMatches "s3:GetTags:Key?" ["s3:GetTags:Key?"] = .ok true := by
  have hactions : tagCatalog.actionsFor? "s3" = some ((∅ : Names).insertMany ["GetTags:Key?"]) := by
    simp [tagCatalog, ofPairs]
  have haccepts : Glob.accepts "*:Key?" "GetTags:Key?" = true := by cbv
  obtain ⟨hverified, hcatalogued⟩ := actionMatches_live tagCatalog
  obtain ⟨hdescribed, _, hitself⟩ := hcatalogued "s3" _ "GetTags:Key?" hactions (by simp)
    (by decide) (by decide) (by decide) (by decide)
  obtain ⟨hverifies, hmatches⟩ := hdescribed "*:Key?" (by decide) haccepts
  have hany : tagCatalog.Verifies "*" := ⟨.any, verify_eq_ok_iff.2 (Or.inl ⟨rfl, rfl⟩)⟩
  have hanswer : tagCatalog.actionMatches "s3" ["*", "s3:*:Key?"] = .ok true :=
    actionMatches_eq_ok_iff.2 ⟨List.forall_mem_cons.2 ⟨hany, List.forall_mem_singleton.2 hverifies⟩,
      iff_of_true rfl ⟨"*", List.mem_cons_self, Or.inl rfl⟩⟩
  exact ⟨hanswer, hverified _ _ _ hanswer _ (List.mem_cons_of_mem _ List.mem_cons_self) (by decide),
    hverifies, hmatches, hitself⟩

end Catalog

end AccessPolicy
