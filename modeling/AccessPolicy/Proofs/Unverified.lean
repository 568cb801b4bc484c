import AccessPolicy.Proofs.Decisions
import AccessPolicy.Proofs.FirstFailure

/-!
# Patterns that do not verify

The patterns of a statement are verified as soon as the statement is reached, whether or not the
rest of it applies to the request.  So the error of a pattern is the outcome exactly if its
statement is reached, that is if all patterns before it verify and no statement before its own
denies the request.  A denial can therefore mask an error, and nothing else can
(`Engine.evaluate_error_unless_denied`).

What happens at one statement is `Engine.effectOf_cons_eq_error_iff` and
`Engine.effectOf_cons_eq_deny_iff`; the passage through all of them follows by induction
(`Engine.effectOf_eq_error_iff`, `Engine.effectOf_eq_deny_iff`).
-/

namespace AccessPolicy

/-! ### Patterns -/

namespace Catalog
variable {catalog : Catalog} {action pattern : String} {patterns : List String}
  {cause : ActionError}

theorem verifies_iff_forall_ne_error :
    catalog.Verifies pattern ↔ ∀ cause, catalog.verify pattern ≠ .error cause := by
  unfold Verifies
  cases catalog.verify pattern <;> simp

/-- The first pattern of a list that does not verify fails for this cause. -/
def FirstUnverified (catalog : Catalog) (patterns : List String) (cause : ActionError) : Prop :=
  FirstFailure (fun pattern cause => catalog.verify pattern = .error cause) patterns cause

/-- A list of patterns gives no answer exactly if one of them does not verify, whatever the action
is and whether or not another pattern stands for it. -/
theorem actionMatches_eq_error_iff :
    catalog.actionMatches action patterns = .error cause ↔
      catalog.FirstUnverified patterns cause := by
  have hreports : (patterns.mapM catalog.verify).Reports
      (fun pattern cause => catalog.verify pattern = .error cause) patterns := .mapM
  exact Except.Reports.map_iff.2 hreports cause

theorem forall_not_firstUnverified_iff :
    (∀ cause, ¬ catalog.FirstUnverified patterns cause) ↔ ∀ p ∈ patterns, catalog.Verifies p := by
  simp only [verifies_iff_forall_ne_error]
  exact forall_not_firstFailure_iff

end Catalog

namespace Engine
variable {e : Engine} {request : Request} {s : Statement} {statements : List Statement}
  {cause : ActionError}

/-! ### One statement -/

/-- The first action pattern of a statement that does not verify fails for this cause. -/
def FailsVerification (e : Engine) (s : Statement) (cause : ActionError) : Prop :=
  e.catalog.FirstUnverified s.action.value.values cause

/-- A statement denies a request. -/
def Denies (e : Engine) (request : Request) (s : Statement) : Prop :=
  s.effect = .deny ∧ e.Applies request s

theorem applies_eq_error_iff :
    e.applies request s = .error cause ↔ e.FailsVerification s cause := by
  unfold applies actionApplies actionMatches
  rw [Except.map_eq_error_iff, Except.map_eq_error_iff, Catalog.actionMatches_eq_error_iff]
  rfl

/-- A statement fails verification or it is verified, but not both. -/
theorem verified_iff_forall_not : e.Verified s ↔ ∀ cause, ¬ e.FailsVerification s cause :=
  Catalog.forall_not_firstUnverified_iff.symm

/-- The passage fails at its first statement, or goes on to the rest and fails there. -/
theorem effectOf_cons_eq_error_iff :
    e.effectOf request (s :: statements) = .error cause ↔
      e.FailsVerification s cause ∨
        (e.Verified s ∧ ¬ e.Denies request s) ∧ e.effectOf request statements = .error cause := by
  rw [effectOf]
  by_cases hs : e.Verified s
  · have hnot : ¬ e.FailsVerification s cause := verified_iff_forall_not.1 hs cause
    rw [hs.applies_eq_ok, or_iff_right hnot, and_iff_right hs, Denies]
    by_cases happlies : e.Applies request s
    · cases heffect : s.effect with
      | deny => simp [happlies]
      | allow => simp [happlies]
    · simp [happlies]
  · obtain ⟨cause', hcause'⟩ : ∃ cause', e.FailsVerification s cause' := by
      rw [verified_iff_forall_not, Classical.not_forall] at hs
      simpa only [Classical.not_not] using hs
    have herror : e.applies request s = .error cause' := applies_eq_error_iff.2 hcause'
    have hiff : e.applies request s = .error cause ↔ e.FailsVerification s cause :=
      applies_eq_error_iff
    rw [← hiff, herror]
    simp [hs]

/-- The passage ends with a denial at its first statement, or goes on to the rest and ends so
there. -/
theorem effectOf_cons_eq_deny_iff :
    e.effectOf request (s :: statements) = .ok (some .deny) ↔
      e.Verified s ∧
        (e.Denies request s ∨ e.effectOf request statements = .ok (some .deny)) := by
  rw [effectOf]
  by_cases hs : e.Verified s
  · rw [hs.applies_eq_ok, and_iff_right hs, Denies]
    by_cases happlies : e.Applies request s
    · cases heffect : s.effect with
      | deny => simp [happlies]
      | allow =>
        -- what the rest amounts to is kept, unless it amounts to nothing
        have hkept : ∀ later : Option Effect, later.getD .allow = .deny ↔ later = some .deny := by
          rintro (_ | later) <;> simp
        simp [happlies, hkept]
    · simp [happlies]
  · have hnot : ∀ answer, e.applies request s ≠ .ok answer := by
      intro answer h
      exact hs (applies_eq_ok_iff.1 h).1
    cases happlies : e.applies request s with
    | error cause => simp [hs]
    | ok answer => exact absurd happlies (hnot answer)

/-! ### The passage through the statements -/

/-- The statement of number `i` is reached: those before it are verified and none of them denies the
request. -/
def Reaches (e : Engine) (request : Request) (statements : List Statement) (i : Nat) : Prop :=
  ∀ s ∈ statements.take i, e.Verified s ∧ ¬ e.Denies request s

/-- A statement before number `i` denies the request, and up to it all statements are verified. -/
def DeniesBefore (e : Engine) (request : Request) (statements : List Statement) (i : Nat) : Prop :=
  ∃ j s, j < i ∧ statements[j]? = some s ∧ e.Denies request s ∧
    ∀ s' ∈ statements.take (j + 1), e.Verified s'

@[simp] theorem reaches_cons_succ_iff {i : Nat} :
    e.Reaches request (s :: statements) (i + 1) ↔
      (e.Verified s ∧ ¬ e.Denies request s) ∧ e.Reaches request statements i := by
  unfold Reaches
  rw [List.take_succ_cons, List.forall_mem_cons]

@[simp] theorem deniesBefore_cons_succ_iff {i : Nat} :
    e.DeniesBefore request (s :: statements) (i + 1) ↔
      e.Verified s ∧ (e.Denies request s ∨ e.DeniesBefore request statements i) := by
  unfold DeniesBefore
  constructor
  · rintro ⟨j, s', hj, hget, hdenies, hverified⟩
    rw [List.take_succ_cons, List.forall_mem_cons] at hverified
    refine ⟨hverified.1, ?_⟩
    cases j with
    | zero =>
      obtain rfl := Option.some.inj hget
      exact Or.inl hdenies
    | succ j => exact Or.inr ⟨j, s', by omega, hget, hdenies, hverified.2⟩
  · rintro ⟨hs, hdenies | ⟨j, s', hj, hget, hdenies, hverified⟩⟩
    · exact ⟨0, s, by omega, rfl, hdenies, by simpa using hs⟩
    · refine ⟨j + 1, s', by omega, hget, hdenies, ?_⟩
      rw [List.take_succ_cons, List.forall_mem_cons]
      exact ⟨hs, hverified⟩

/-- The passage fails at the first statement that is not verified, if that is reached. -/
theorem effectOf_eq_error_iff :
    e.effectOf request statements = .error cause ↔
      ∃ i s, statements[i]? = some s ∧ e.FailsVerification s cause ∧
        e.Reaches request statements i := by
  induction statements with
  | nil => simp [effectOf]
  | cons s statements ih =>
    rw [effectOf_cons_eq_error_iff, ih]
    constructor
    · rintro (hs | ⟨hs, i, s', hget, hfails, hreaches⟩)
      · exact ⟨0, s, rfl, hs, by simp [Reaches]⟩
      · exact ⟨i + 1, s', hget, hfails, reaches_cons_succ_iff.2 ⟨hs, hreaches⟩⟩
    · rintro ⟨i, s', hget, hfails, hreaches⟩
      cases i with
      | zero =>
        obtain rfl := Option.some.inj hget
        exact Or.inl hfails
      | succ i =>
        obtain ⟨hs, hreaches⟩ := reaches_cons_succ_iff.1 hreaches
        exact Or.inr ⟨hs, i, s', hget, hfails, hreaches⟩

/-- The passage ends with a denial if there is one and all patterns up to it verify. -/
theorem effectOf_eq_deny_iff :
    e.effectOf request statements = .ok (some .deny) ↔
      e.DeniesBefore request statements statements.length := by
  induction statements with
  | nil => simp [effectOf, DeniesBefore]
  | cons s statements ih =>
    rw [effectOf_cons_eq_deny_iff, ih, List.length_cons, deniesBefore_cons_succ_iff]

/-! ### Decisions -/

/-- A statement that is not verified stands after all denials that are reached. -/
theorem DeniesBefore.of_not_verified {i : Nat} (hget : statements[i]? = some s)
    (hs : ¬ e.Verified s) (h : e.DeniesBefore request statements statements.length) :
    e.DeniesBefore request statements i := by
  obtain ⟨j, s', hj, hget', hdenies, hverified⟩ := h
  refine ⟨j, s', Nat.lt_of_not_le fun hle => ?_, hget', hdenies, hverified⟩
  have htake : (statements.take (j + 1))[i]? = some s := by
    rw [List.getElem?_take_of_lt (by omega), hget]
  exact hs (hverified s (List.mem_of_getElem? htake))

theorem evaluate_eq_error_iff :
    e.evaluate request = .error cause ↔
      e.effectOf request e.document.statements = .error cause := by
  unfold evaluate
  exact Except.map_eq_error_iff

/-- **Errors surface unless a denial comes first.**  A request fails for the cause of the first
pattern that does not verify, in the first statement with such a pattern, if no statement before it
denies the request; whether that statement would apply plays no part.  So an allowed request has had
all patterns verified, and a request that is decided although the patterns of some statement do not
all verify was denied before that statement. -/
theorem evaluate_error_unless_denied (e : Engine) (request : Request) :
    (∀ cause, e.evaluate request = .error cause ↔
      ∃ i s, e.document.statements[i]? = some s ∧ e.FailsVerification s cause ∧
        e.Reaches request e.document.statements i) ∧
    (e.evaluate request = .ok .allowed → ∀ s ∈ e.document.statements, e.Verified s) ∧
    ∀ i s decision, e.document.statements[i]? = some s → ¬ e.Verified s →
      (e.evaluate request = .ok decision ↔
        decision = .denied ∧ e.DeniesBefore request e.document.statements i) := by
  have hallowed : e.evaluate request = .ok .allowed → ∀ s ∈ e.document.statements, e.Verified s :=
    fun h => (evaluate_eq_allowed_iff.1 h).1
  refine ⟨fun cause => evaluate_eq_error_iff.trans effectOf_eq_error_iff, hallowed, ?_⟩
  intro i s decision hget hs
  have hmem : s ∈ e.document.statements := List.mem_of_getElem? hget
  constructor
  · intro h
    obtain ⟨outcome, houtcome, hdecision⟩ := Except.map_eq_ok_iff.1 h
    -- any other outcome would have needed the patterns of this statement
    have hdeny : outcome = some .deny := by
      by_cases hne : outcome = some .deny
      · exact hne
      · exact absurd (verified_of_effectOf houtcome hne s hmem) hs
    subst hdeny
    exact ⟨hdecision.symm, (effectOf_eq_deny_iff.1 houtcome).of_not_verified hget hs⟩
  · rintro ⟨rfl, j, s', hj, hget', hdenies, hverified⟩
    have hlength : j < e.document.statements.length := (List.getElem?_eq_some_iff.1 hget').1
    have hdeny : e.effectOf request e.document.statements = .ok (some .deny) :=
      effectOf_eq_deny_iff.2 ⟨j, s', hlength, hget', hdenies, hverified⟩
    rw [evaluate, hdeny]
    rfl

/-! ### A misspelt action -/

/-- A statement with a second action that nothing is called. -/
def misspelt : Statement where
  effect := .allow
  action := .is ⟨["s3:Get*", "s3:Putt*"], by decide, by decide⟩
  resource := none
  principal := none
  condition := none

/-- The shared bucket with a misspelt action in a last statement. -/
def misspeltBucket : Engine :=
  { sharedBucket with document.statements := sharedBucket.document.statements ++ [misspelt] }

/-- Reading a file beside the inbox. -/
def readNotes : Request := ⟨"s3:GetObject", "arn:aws:s3:::shared/notes", by decide⟩

theorem misspelt_failsVerification :
    misspeltBucket.FailsVerification misspelt (.unknownAction "s3:Putt*") := by
  have hactions : misspeltBucket.catalog.actionsFor? "s3" =
      some ((∅ : Names).insertMany ["GetObject", "PutObject"]) := sharedBucket_actionsFor?
  have hget : misspeltBucket.catalog.Verifies "s3:Get*" := sharedBucket_verifies_get
  refine ⟨1, "s3:Putt*", rfl, ?_, ?_⟩
  · have hcut : Text.cut? ':' "s3:Putt*" = some ("s3", "Putt*") :=
      Text.cut?_colon_iff.2 ⟨rfl, by decide⟩
    have hwild : hasWildcard "s3" = false := by decide
    have hnone : ((∅ : Names).insertMany ["GetObject", "PutObject"]).toList.any
        (Glob.accepts "Putt*") = false := by
      have hgetObject : Glob.accepts "Putt*" "GetObject" = false := by cbv
      have hputObject : Glob.accepts "Putt*" "PutObject" = false := by cbv
      rw [List.any_eq_false]
      intro known hknown
      rw [Std.ExtTreeSet.mem_toList] at hknown
      have hnames : known = "GetObject" ∨ known = "PutObject" := by simpa using hknown
      rcases hnames with rfl | rfl
      · simp [hgetObject]
      · simp [hputObject]
    simp [Catalog.verify, hcut, hwild, hactions, hnone]
  · intro p hp
    obtain rfl := List.mem_singleton.1 hp
    exact Catalog.verifies_iff_forall_ne_error.1 hget

theorem readNotes_covered : PatternCovers readNotes.action "s3:Get*" := by
  have hname : Glob.accepts "Get*" "GetObject" = true := by cbv
  exact Or.inr ⟨"s3", "Get*", "GetObject", by decide, rfl, Or.inl rfl, hname⟩

theorem sharedBucket_not_denies_readNotes :
    ∀ s ∈ sharedBucket.document.statements, ¬ sharedBucket.Denies readNotes s := by
  refine List.forall_mem_cons.2 ⟨?_, List.forall_mem_singleton.2 ?_⟩
  · rintro ⟨heffect, _⟩
    cases heffect
  · -- reading is what the denial leaves out
    rintro ⟨_, ⟨haction, _⟩, _⟩
    exact haction ⟨_, List.mem_cons_self, readNotes_covered⟩

theorem sharedBucket_allows_readNotes : sharedBucket.evaluate readNotes = .ok .allowed := by
  have hresource : Glob.accepts "arn:aws:s3:::shared/*" "arn:aws:s3:::shared/notes" = true := by
    cbv
  refine evaluate_eq_allowed_iff.2 ⟨sharedBucket_verified, ?_, Or.inl ?_⟩
  · rintro ⟨s, hs, hdenies⟩
    exact sharedBucket_not_denies_readNotes s hs hdenies
  · refine ⟨_, List.mem_cons_self, rfl, ⟨?_, ?_⟩, Or.inl rfl⟩
    · exact ⟨_, List.mem_cons_self, readNotes_covered⟩
    · exact ⟨by decide, _, List.mem_cons_self, by decide, hresource⟩

/-- The misspelt action is found out when a file is read, but not when it is written, which is
denied first. -/
theorem misspeltBucket_fails_readNotes :
    misspeltBucket.evaluate readNotes = .error (.unknownAction "s3:Putt*") ∧
      sharedBucket.evaluate readNotes = .ok .allowed ∧
      (∀ s ∈ sharedBucket.document.statements, sharedBucket.Verified s) ∧
      misspeltBucket.document.statements[2]? = some misspelt ∧ ¬ misspeltBucket.Verified misspelt ∧
      misspeltBucket.evaluate writeNotes = .ok .denied := by
  have hmisspelt : ¬ misspeltBucket.Verified misspelt := by
    intro h
    exact verified_iff_forall_not.1 h _ misspelt_failsVerification
  have hreaches : misspeltBucket.Reaches readNotes misspeltBucket.document.statements 2 := by
    intro s hs
    exact ⟨sharedBucket_verified s hs, sharedBucket_not_denies_readNotes s hs⟩
  have hdenies : misspeltBucket.DeniesBefore writeNotes misspeltBucket.document.statements 2 := by
    obtain ⟨s, hs, heffect, happlies⟩ := sharedBucket_denies_writeNotes
    rcases List.mem_cons.1 hs with rfl | hs
    · cases heffect
    · obtain rfl := List.mem_singleton.1 hs
      exact ⟨1, _, by omega, rfl, ⟨heffect, happlies⟩, sharedBucket_verified⟩
  exact ⟨((evaluate_error_unless_denied misspeltBucket readNotes).1 _).2
      ⟨2, misspelt, rfl, misspelt_failsVerification, hreaches⟩,
    sharedBucket_allows_readNotes,
    (evaluate_error_unless_denied sharedBucket readNotes).2.1 sharedBucket_allows_readNotes,
    rfl, hmisspelt,
    ((evaluate_error_unless_denied misspeltBucket writeNotes).2.2 2 misspelt .denied rfl
      hmisspelt).2 ⟨rfl, hdenies⟩⟩

end Engine

end AccessPolicy
