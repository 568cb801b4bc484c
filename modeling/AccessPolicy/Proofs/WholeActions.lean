import AccessPolicy.Proofs.GreedyWalk
import AccessPolicy.Proofs.Unverified

/-!
# Actions as whole texts

Patterns are matched with actions in two parts, the services literally and the names as globs.  For
patterns that verify, a glob over the whole text would do as well: the service of such a pattern has
no wildcard and no colon, so that nothing in it can take the colon of the action
(`accepts_scoped_iff`).

The one exception are actions without a colon.  They count as services with an empty name, and a
pattern of that service and a row of stars covers them, although as a text it has a colon more than
they have (`Catalog.patternCovers_iff_accepts`).

Main statement: `Catalog.actionMatches_wholeText`.
-/

namespace AccessPolicy

/-! ### One pattern -/

/-- Where the service is literal, the colon of a pattern takes the colon of the action. -/
theorem accepts_scoped_iff {service name action : String} (hwild : hasWildcard service = false) :
    Glob.accepts (service ++ ":" ++ name) action = true ↔
      ∃ rest, action = service ++ ":" ++ rest ∧ Glob.accepts name rest = true := by
  have hnone : '*' ∉ service.toList ∧ '?' ∉ service.toList := by
    rw [← not_or, ← hasWildcard_iff, hwild]
    exact Bool.false_ne_true
  have hstar : '*' ∉ (service ++ ":").toList := by simp [hnone.1]
  have hany : '?' ∉ (service ++ ":").toList := by simp [hnone.2]
  exact Glob.accepts_append_iff hstar hany

namespace Catalog
variable {catalog : Catalog} {action pattern service name : String} {patterns : List String}

/-- The service of a pattern that verifies is literal. -/
theorem Verifies.hasWildcard_eq_false (h : catalog.Verifies (service ++ ":" ++ name))
    (hservice : ':' ∉ service.toList) : hasWildcard service = false := by
  obtain ⟨_, hverify⟩ := h
  rcases verify_eq_ok_iff.1 hverify with ⟨hstar, _⟩ |
    ⟨service', name', _, _, hpattern, hservice', hwild, _⟩
  · exact absurd hstar (append_colon_ne_star service name)
  · obtain ⟨rfl, _⟩ := append_colon_inj hservice hservice' hpattern
    exact hwild

/-- A pattern that verifies covers what it describes as a whole, and the service alone if it ends in
a row of stars. -/
theorem patternCovers_iff_accepts (h : catalog.Verifies pattern) :
    PatternCovers action pattern ↔
      Glob.accepts pattern action = true ∨
        ':' ∉ action.toList ∧
          ∃ name, pattern = action ++ ":" ++ name ∧ ∀ c ∈ name.toList, c = '*' := by
  obtain ⟨_, hverify⟩ := h
  rcases verify_eq_ok_iff.1 hverify with ⟨rfl, _⟩ |
    ⟨service, name, _, _, rfl, hservice, hwild, _⟩
  · exact iff_of_true (Or.inl rfl) (Or.inl (Glob.accepts_star action))
  · rw [patternCovers_append_iff hservice, ActionPattern.covers_scoped_iff hservice,
      accepts_scoped_iff hwild]
    constructor
    · rintro ⟨rest, haction | ⟨rfl, rfl⟩, hname⟩
      · exact Or.inl ⟨rest, haction, hname⟩
      · exact Or.inr ⟨hservice, name, rfl, Glob.accepts_empty_iff.1 hname⟩
    · rintro (⟨rest, haction, hname⟩ | ⟨haction, name', hpattern, hstars⟩)
      · exact ⟨rest, Or.inl haction, hname⟩
      · obtain ⟨rfl, rfl⟩ := append_colon_inj hservice haction hpattern
        exact ⟨"", Or.inr ⟨rfl, rfl⟩, Glob.accepts_empty_iff.2 hstars⟩

/-- A pattern with a service covers an action without a colon exactly if this is its service and its
name is a row of stars; as a whole it does not describe the action. -/
theorem covers_colonless (h : catalog.Verifies (service ++ ":" ++ name))
    (hservice : ':' ∉ service.toList) (haction : ':' ∉ action.toList) :
    (PatternCovers action (service ++ ":" ++ name) ↔
        service = action ∧ ∀ c ∈ name.toList, c = '*') ∧
      Glob.accepts (service ++ ":" ++ name) action = false := by
  have hnot : Glob.accepts (service ++ ":" ++ name) action = false := by
    rw [Bool.eq_false_iff, ne_eq, accepts_scoped_iff (h.hasWildcard_eq_false hservice)]
    rintro ⟨rest, rfl, _⟩
    exact haction (by simp)
  refine ⟨?_, hnot⟩
  rw [patternCovers_iff_accepts h, hnot, and_iff_right haction]
  constructor
  · rintro (h | ⟨name', hpattern, hstars⟩)
    · cases h
    · obtain ⟨rfl, rfl⟩ := append_colon_inj hservice haction hpattern
      exact ⟨rfl, hstars⟩
  · rintro ⟨rfl, hstars⟩
    exact Or.inr ⟨name, rfl, hstars⟩

/-! ### Lists of patterns -/

theorem actionMatches_eq_ok_true_iff (h : ∀ p ∈ patterns, catalog.Verifies p) :
    catalog.actionMatches action patterns = .ok true ↔ ∃ p ∈ patterns, PatternCovers action p := by
  rw [actionMatches_eq_ok_iff, and_iff_right h, eq_self_iff_true, true_iff]

/-- **Matching in two parts is matching as a whole.**  If all patterns of a list verify, an action
with a colon is matched exactly if one of them describes it as a whole.  For an action without a
colon the one difference is this: a pattern of a service and a row of stars matches the service
alone, although as a whole it does not describe it. -/
theorem actionMatches_wholeText (catalog : Catalog) (patterns : List String)
    (h : ∀ p ∈ patterns, catalog.Verifies p) :
    (∀ action, ':' ∈ action.toList → catalog.actionMatches action patterns =
      .ok (patterns.any fun p => Glob.accepts p action)) ∧
    ∀ action, ':' ∉ action.toList →
      (∃ answer, catalog.actionMatches action patterns = .ok answer ∧
        (answer = true ↔ ∃ p ∈ patterns, Glob.accepts p action = true ∨
          ∃ name, p = action ++ ":" ++ name ∧ ∀ c ∈ name.toList, c = '*')) ∧
      ∀ service name, service ++ ":" ++ name ∈ patterns → ':' ∉ service.toList →
        (catalog.actionMatches action [service ++ ":" ++ name] = .ok true ↔
          service = action ∧ ∀ c ∈ name.toList, c = '*') ∧
        Glob.accepts (service ++ ":" ++ name) action = false := by
  refine ⟨fun action haction => ?_, fun action haction => ⟨?_, ?_⟩⟩
  · -- only an action without a colon is a service alone
    have hwhole : ∀ p ∈ patterns, (PatternCovers action p ↔ Glob.accepts p action = true) := by
      intro p hp
      rw [patternCovers_iff_accepts (h p hp), or_iff_left fun hservice => hservice.1 haction]
    rw [actionMatches_eq_ok_iff, and_iff_right h, List.any_eq_true]
    exact exists_congr fun p => and_congr_right fun hp => (hwhole p hp).symm
  · refine ⟨_, actionMatches_eq_ok_iff.2 ⟨h, decide_eq_true_iff⟩, ?_⟩
    rw [decide_eq_true_iff]
    refine exists_congr fun p => and_congr_right fun hp => ?_
    rw [patternCovers_iff_accepts (h p hp), and_iff_right haction]
  · intro service name hp hservice
    have hverifies : catalog.Verifies (service ++ ":" ++ name) := h _ hp
    obtain ⟨hcovers, hnot⟩ := covers_colonless hverifies hservice haction
    refine ⟨?_, hnot⟩
    rw [actionMatches_eq_ok_true_iff (List.forall_mem_singleton.2 hverifies), ← hcovers]
    simp only [List.mem_singleton, exists_eq_left]

end Catalog

/-! ### The service alone -/

namespace Engine

/-- A pattern for all of a service matches its actions, as it does as a whole, and matches the
service alone, which as a whole it does not. -/
theorem sharedBucket_wholeText :
    (∀ p ∈ ["s3:Get*", "s3:*"], sharedBucket.catalog.Verifies p) ∧
      sharedBucket.catalog.actionMatches readNotes.action ["s3:Get*", "s3:*"] = .ok true ∧
      (∃ answer, sharedBucket.catalog.actionMatches "s3" ["s3:Get*", "s3:*"] = .ok answer ∧
        answer = true) ∧
      sharedBucket.catalog.actionMatches "s3" ["s3:*"] = .ok true ∧
      Glob.accepts "s3:*" "s3" = false := by
  have hall : sharedBucket.catalog.Verifies "s3:*" :=
    sharedBucket_verifies "*" (by decide) List.mem_cons_self (by cbv)
  have hverifies : ∀ p ∈ ["s3:Get*", "s3:*"], sharedBucket.catalog.Verifies p :=
    List.forall_mem_cons.2 ⟨sharedBucket_verifies_get, List.forall_mem_singleton.2 hall⟩
  have hmem : "s3:*" ∈ ["s3:Get*", "s3:*"] := List.mem_cons_of_mem _ List.mem_cons_self
  obtain ⟨hcolon, hcolonless⟩ :=
    Catalog.actionMatches_wholeText sharedBucket.catalog ["s3:Get*", "s3:*"] hverifies
  obtain ⟨⟨answer, hanswer, hiff⟩, hscoped⟩ := hcolonless "s3" (by decide)
  obtain ⟨halone, hnot⟩ := hscoped "s3" "*" hmem (by decide)
  have hget : Glob.accepts "s3:Get*" readNotes.action = true := by cbv
  refine ⟨hverifies, ?_, ⟨answer, hanswer, hiff.2 ⟨"s3:*", hmem, Or.inr ⟨"*", rfl, by simp⟩⟩⟩,
    halone.2 ⟨rfl, by simp⟩, hnot⟩
  rw [hcolon readNotes.action (by decide), List.any_cons, hget, Bool.true_or]

end Engine

end AccessPolicy
