import AccessPolicy.Engine.ActionPattern
import AccessPolicy.Proofs.Except
import Mathlib.Tactic.SplitIfs

/-!
# What action patterns stand for

`PatternCovers action pattern` says on the texts alone when a pattern stands for an action: it is
`*`, or the two agree up to their first colon and the rest of the pattern describes the rest of the
action.  An action without a colon counts as a service with an empty name.

* `Catalog.verify_eq_ok_iff`: which patterns verify against a catalog, and as what.
* `Catalog.actionMatches_eq_ok_iff`: a list of patterns gives an answer exactly when all of them
  verify, and the answer is then whether one of them covers the action, whatever the catalog.
-/

namespace AccessPolicy

/-! ### The first colon -/

theorem Text.cut?_colon_iff {s before after : String} :
    cut? ':' s = some (before, after) ↔ s = before ++ ":" ++ after ∧ ':' ∉ before.toList := by
  have htext : s = before ++ ":" ++ after ↔ s.toList = before.toList ++ ':' :: after.toList := by
    rw [← String.toList_inj]
    simp
  rw [cut?_eq_some_iff, htext]

/-- A text has one first colon only. -/
theorem append_colon_inj {before before' after after' : String} (hbefore : ':' ∉ before.toList)
    (hbefore' : ':' ∉ before'.toList) (h : before ++ ":" ++ after = before' ++ ":" ++ after') :
    before = before' ∧ after = after' := by
  have hcut : Text.cut? ':' (before ++ ":" ++ after) = some (before, after) :=
    Text.cut?_colon_iff.2 ⟨rfl, hbefore⟩
  have hcut' : Text.cut? ':' (before ++ ":" ++ after) = some (before', after') :=
    Text.cut?_colon_iff.2 ⟨h, hbefore'⟩
  rw [hcut, Option.some.injEq, Prod.mk.injEq] at hcut'
  exact hcut'

/-- The service of an action has no colon: it ends where the first colon stands, or with the action
if there is none. -/
theorem ActionPattern.splitAction_eq_iff {action service name : String} :
    splitAction action = (service, name) ↔
      ':' ∉ service.toList ∧
        (action = service ++ ":" ++ name ∨ action = service ∧ name = "") := by
  unfold splitAction
  cases hcut : Text.cut? ':' action with
  | none =>
    have hno := Text.cut?_eq_none_iff.1 hcut
    simp only [Option.getD_none, Prod.mk.injEq]
    constructor
    · rintro ⟨rfl, rfl⟩
      exact ⟨hno, Or.inr ⟨rfl, rfl⟩⟩
    · rintro ⟨_, rfl | ⟨rfl, rfl⟩⟩
      · exact absurd (by simp) hno
      · exact ⟨rfl, rfl⟩
  | some parts =>
    obtain ⟨before, after⟩ := parts
    obtain ⟨haction, hbefore⟩ := Text.cut?_colon_iff.1 hcut
    simp only [Option.getD_some, Prod.mk.injEq]
    constructor
    · rintro ⟨rfl, rfl⟩
      exact ⟨hbefore, Or.inl haction⟩
    · rintro ⟨hservice, h | ⟨h, _⟩⟩
      · exact append_colon_inj hbefore hservice (haction.symm.trans h)
      · -- the action has a colon, the service has none
        rw [← h, haction] at hservice
        exact absurd (by simp) hservice

/-! ### Covering -/

/-- Whether a pattern stands for an action, as far as the texts go. -/
def PatternCovers (action pattern : String) : Prop :=
  pattern = "*" ∨ ∃ service name rest,
    ':' ∉ service.toList ∧ pattern = service ++ ":" ++ name ∧
      (action = service ++ ":" ++ rest ∨ action = service ∧ rest = "") ∧
      Glob.accepts name rest = true

@[simp] theorem append_colon_ne_star (service name : String) : service ++ ":" ++ name ≠ "*" := by
  intro h
  have hmem : ':' ∈ "*".toList := by
    rw [← h]
    simp
  simp at hmem

theorem ActionPattern.covers_scoped_iff {action service name : String}
    (hservice : ':' ∉ service.toList) :
    (ActionPattern.scoped service name).covers action = true ↔
      ∃ rest, (action = service ++ ":" ++ rest ∨ action = service ∧ rest = "") ∧
        Glob.accepts name rest = true := by
  rcases hsplit : splitAction action with ⟨service', rest'⟩
  simp only [covers, hsplit, Bool.and_eq_true, decide_eq_true_eq]
  constructor
  · rintro ⟨rfl, hname⟩
    exact ⟨rest', (splitAction_eq_iff.1 hsplit).2, hname⟩
  · rintro ⟨rest, haction, hname⟩
    have hsplit' := splitAction_eq_iff.2 ⟨hservice, haction⟩
    rw [hsplit, Prod.mk.injEq] at hsplit'
    obtain ⟨rfl, rfl⟩ := hsplit'
    exact ⟨rfl, hname⟩

/-- A text with a colon covers what the pattern with its service and name covers. -/
theorem patternCovers_append_iff {action service name : String}
    (hservice : ':' ∉ service.toList) :
    PatternCovers action (service ++ ":" ++ name) ↔
      (ActionPattern.scoped service name).covers action = true := by
  rw [ActionPattern.covers_scoped_iff hservice]
  constructor
  · rintro (h | ⟨service', name', rest, hservice', hpattern, haction, hname⟩)
    · exact absurd h (append_colon_ne_star service name)
    · obtain ⟨rfl, rfl⟩ := append_colon_inj hservice hservice' hpattern
      exact ⟨rest, haction, hname⟩
  · rintro ⟨rest, haction, hname⟩
    exact Or.inr ⟨service, name, rest, hservice, rfl, haction, hname⟩

/-- `PatternCovers`, computed. -/
def patternCovers (action pattern : String) : Bool :=
  pattern = "*" || (Text.cut? ':' pattern).any fun (service, name) =>
    (ActionPattern.scoped service name).covers action

@[simp] theorem patternCovers_iff {action pattern : String} :
    patternCovers action pattern = true ↔ PatternCovers action pattern := by
  unfold patternCovers
  rw [Bool.or_eq_true, decide_eq_true_eq]
  cases hcut : Text.cut? ':' pattern with
  | none =>
    have hno := Text.cut?_eq_none_iff.1 hcut
    simp only [Option.any_none, Bool.false_eq_true, or_false]
    refine ⟨Or.inl, ?_⟩
    rintro (h | ⟨service, name, rest, _, rfl, _⟩)
    · exact h
    · exact absurd (by simp) hno
  | some parts =>
    obtain ⟨service, name⟩ := parts
    obtain ⟨rfl, hservice⟩ := Text.cut?_colon_iff.1 hcut
    rw [Option.any_some, patternCovers_append_iff hservice,
      or_iff_right (append_colon_ne_star service name)]

instance (action pattern : String) : Decidable (PatternCovers action pattern) :=
  decidable_of_iff _ patternCovers_iff

/-! ### Verifying -/

theorem hasWildcard_iff {service : String} :
    hasWildcard service = true ↔ '*' ∈ service.toList ∨ '?' ∈ service.toList := by
  unfold hasWildcard
  simp only [List.any_eq_true, Bool.or_eq_true, decide_eq_true_eq]
  constructor
  · rintro ⟨c, hc, rfl | rfl⟩
    · exact Or.inl hc
    · exact Or.inr hc
  · rintro (h | h)
    · exact ⟨_, h, Or.inl rfl⟩
    · exact ⟨_, h, Or.inr rfl⟩

namespace Catalog
variable {catalog : Catalog} {action pattern : String} {patterns : List String}

/-- A pattern that verifies is `*`, or has a literal service that the catalog knows with an action
that the rest of the pattern describes. -/
theorem verify_eq_ok_iff {verified : ActionPattern} :
    catalog.verify pattern = .ok verified ↔
      pattern = "*" ∧ verified = .any ∨
        ∃ service name actions known, pattern = service ++ ":" ++ name ∧ ':' ∉ service.toList ∧
          hasWildcard service = false ∧ name ≠ "" ∧
          catalog.actionsFor? service = some actions ∧ known ∈ actions ∧
          Glob.accepts name known = true ∧ verified = .scoped service name := by
  constructor
  · intro h
    unfold verify at h
    split at h
    · rename_i hstar
      exact Or.inl ⟨hstar, (Except.ok.inj h).symm⟩
    · split at h
      · cases h
      · rename_i service name hcut
        obtain ⟨hpattern, hservice⟩ := Text.cut?_colon_iff.1 hcut
        split_ifs at h with hwild hname
        split at h
        · cases h
        · rename_i actions hactions
          split_ifs at h with hany
          obtain ⟨known, hknown, haccepts⟩ := List.any_eq_true.1 hany
          exact Or.inr ⟨service, name, actions, known, hpattern, hservice, by simpa using hwild,
            hname, hactions, Std.ExtTreeSet.mem_toList.1 hknown, haccepts, (Except.ok.inj h).symm⟩
  · rintro (⟨rfl, rfl⟩ | ⟨service, name, actions, known, rfl, hservice, hwild, hname, hactions,
      hknown, haccepts, rfl⟩)
    · simp [verify]
    · have hany : actions.toList.any (Glob.accepts name) = true :=
        List.any_eq_true.2 ⟨known, Std.ExtTreeSet.mem_toList.2 hknown, haccepts⟩
      simp [verify, Text.cut?_colon_iff.2 ⟨rfl, hservice⟩, hwild, hname,
        hactions, hany]

/-- A pattern that the catalog vouches for. -/
def Verifies (catalog : Catalog) (pattern : String) : Prop :=
  ∃ verified, catalog.verify pattern = .ok verified

/-- What is verified stands for the same actions as the text it was verified from. -/
theorem covers_iff_of_verify {verified : ActionPattern}
    (h : catalog.verify pattern = .ok verified) :
    verified.covers action = true ↔ PatternCovers action pattern := by
  rcases verify_eq_ok_iff.1 h with ⟨rfl, rfl⟩ |
    ⟨service, name, _, _, rfl, hservice, _, _, _, _, _, rfl⟩
  · simp [ActionPattern.covers, PatternCovers]
  · exact (patternCovers_append_iff hservice).symm

theorem actionMatches_cons (pattern : String) (patterns : List String) :
    catalog.actionMatches action (pattern :: patterns) =
      match catalog.verify pattern with
      | .error cause => .error cause
      | .ok verified =>
        (catalog.actionMatches action patterns).map fun rest => verified.covers action || rest := by
  unfold actionMatches
  rw [List.mapM_cons]
  cases catalog.verify pattern with
  | error cause => rfl
  | ok verified => cases patterns.mapM catalog.verify <;> rfl

theorem actionMatches_eq_ok_iff {answer : Bool} :
    catalog.actionMatches action patterns = .ok answer ↔
      (∀ p ∈ patterns, catalog.Verifies p) ∧
        (answer = true ↔ ∃ p ∈ patterns, PatternCovers action p) := by
  induction patterns generalizing answer with
  | nil =>
    have hnil : catalog.actionMatches action [] = .ok false := rfl
    simp [hnil, eq_comm]
  | cons pattern patterns ih =>
    rw [actionMatches_cons, List.forall_mem_cons]
    cases hverify : catalog.verify pattern with
    | error cause =>
      -- no answer, and the first pattern is why
      have hnot : ¬ catalog.Verifies pattern := by
        rintro ⟨verified, h⟩
        rw [hverify] at h
        cases h
      simp [hnot]
    | ok verified =>
      have hcovers : verified.covers action = true ↔ PatternCovers action pattern :=
        covers_iff_of_verify hverify
      have hyes : catalog.Verifies pattern := ⟨verified, hverify⟩
      simp only [hyes, true_and, List.mem_cons, exists_eq_or_imp, ← hcovers]
      constructor
      · intro h
        obtain ⟨rest, hrest, rfl⟩ := Except.map_eq_ok_iff.1 h
        obtain ⟨hall, hiff⟩ := ih.1 hrest
        exact ⟨hall, by rw [Bool.or_eq_true, hiff]⟩
      · rintro ⟨hall, hiff⟩
        have hrest := ih.2 ⟨hall, decide_eq_true_iff⟩
        rw [hrest, Except.ok_map, Except.ok.injEq, Bool.eq_iff_iff, hiff, Bool.or_eq_true,
          decide_eq_true_iff]

end Catalog

end AccessPolicy
