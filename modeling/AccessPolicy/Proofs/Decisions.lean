import AccessPolicy.Proofs.Applicability

/-!
# Deny overrides

An engine goes through its statements in order, stops at the first one that applies and denies, and
remembers whether one applied that allows.  The outcome does not depend on where it stopped: if
every action pattern verifies, a request is denied if some denying statement applies, else allowed
if some allowing statement applies, else decided by default (`Engine.evaluate_of_verified`).

The passage through the statements is `Engine.effectOf_of_verified`, by induction on them.  In the
other direction only an applicable denying statement can keep a pattern from being verified
(`Engine.verified_of_effectOf`), so a request that is allowed has had all of them verified
(`Engine.evaluate_eq_allowed_iff`).
-/

namespace AccessPolicy

/-! ### The rule -/

/-- The decision where a denial counts more than a permission and either more than the default. -/
def denyOverrides (default : Decision) (denies allows : Prop) [Decidable denies]
    [Decidable allows] : Decision :=
  if denies then .denied else if allows then .allowed else default

section
variable {default : Decision} {denies allows : Prop} [Decidable denies] [Decidable allows]

@[simp] theorem denyOverrides_eq_allowed_iff :
    denyOverrides default denies allows = .allowed ↔ ¬ denies ∧ (allows ∨ default = .allowed) := by
  unfold denyOverrides
  split_ifs with hdenies hallows
  · simp [hdenies]
  · simp [hdenies, hallows]
  · simp [hdenies, hallows]

@[simp] theorem denyOverrides_eq_denied_iff :
    denyOverrides default denies allows = .denied ↔ denies ∨ ¬ allows ∧ default = .denied := by
  unfold denyOverrides
  split_ifs with hdenies hallows
  · simp [hdenies]
  · simp [hdenies, hallows]
  · simp [hdenies, hallows]

end

/-! ### The passage through the statements -/

namespace Engine
variable {e : Engine} {request : Request} {statements : List Statement}

/-- Some statement of a given effect applies to a request. -/
def SomeApplies (e : Engine) (request : Request) (effect : Effect) (statements : List Statement) :
    Prop :=
  ∃ s ∈ statements, s.effect = effect ∧ e.Applies request s

instance (e : Engine) (request : Request) (effect : Effect) (statements : List Statement) :
    Decidable (e.SomeApplies request effect statements) :=
  inferInstanceAs (Decidable (∃ s ∈ statements, _))

@[simp] theorem not_someApplies_nil {effect : Effect} : ¬ e.SomeApplies request effect [] := by
  simp [SomeApplies]

@[simp] theorem someApplies_cons {effect : Effect} {s : Statement} :
    e.SomeApplies request effect (s :: statements) ↔
      s.effect = effect ∧ e.Applies request s ∨ e.SomeApplies request effect statements := by
  simp [SomeApplies]

/-- The effect of the statements, if all their patterns verify. -/
theorem effectOf_of_verified (h : ∀ s ∈ statements, e.Verified s) :
    e.effectOf request statements = .ok
      (if e.SomeApplies request .deny statements then some .deny
      else if e.SomeApplies request .allow statements then some .allow else none) := by
  induction statements with
  | nil => simp [effectOf]
  | cons s rest ih =>
    rw [List.forall_mem_cons] at h
    have hrest := ih h.2
    rw [effectOf, h.1.applies_eq_ok]
    simp only [someApplies_cons]
    by_cases hs : e.Applies request s
    · cases heffect : s.effect with
      | deny => simp [hs]
      | allow =>
        -- a denial among the rest still counts more
        simp only [hs, decide_true, hrest, Except.ok_map]
        split_ifs <;> simp_all
    · simp [hs, hrest]

/-- Unless a denial is the outcome, the passage has reached and verified every pattern. -/
theorem verified_of_effectOf {outcome : Option Effect}
    (h : e.effectOf request statements = .ok outcome) (hne : outcome ≠ some .deny) :
    ∀ s ∈ statements, e.Verified s := by
  induction statements generalizing outcome with
  | nil => simp
  | cons s rest ih =>
    rw [List.forall_mem_cons]
    rw [effectOf] at h
    split at h
    · cases h
    · -- the first statement does not apply
      rename_i happlies
      exact ⟨(applies_eq_ok_iff.1 happlies).1, ih h hne⟩
    · -- the first statement applies, so it does not deny
      rename_i happlies
      split at h
      · exact absurd (Except.ok.inj h).symm hne
      · obtain ⟨later, hlater, hsome⟩ := Except.map_eq_ok_iff.1 h
        refine ⟨(applies_eq_ok_iff.1 happlies).1, ih hlater ?_⟩
        -- a denial later on would have been the outcome here too
        rintro rfl
        exact hne hsome.symm

/-! ### Decisions -/

/-- The decision that the statements amount to, whether or not their patterns verify. -/
def decision (e : Engine) (request : Request) : Decision :=
  denyOverrides e.default (e.SomeApplies request .deny e.document.statements)
    (e.SomeApplies request .allow e.document.statements)

/-- If all patterns verify, the engine answers with this decision. -/
theorem evaluate_eq_decision (h : ∀ s ∈ e.document.statements, e.Verified s) :
    e.evaluate request = .ok (e.decision request) := by
  rw [evaluate, effectOf_of_verified h, Except.ok_map, decision, denyOverrides]
  split_ifs <;> rfl

/-- A request is allowed exactly if every pattern verifies, no denying statement applies, and an
allowing one does or the default allows. -/
theorem evaluate_eq_allowed_iff :
    e.evaluate request = .ok .allowed ↔
      (∀ s ∈ e.document.statements, e.Verified s) ∧
        ¬ e.SomeApplies request .deny e.document.statements ∧
        (e.SomeApplies request .allow e.document.statements ∨ e.default = .allowed) := by
  rw [← denyOverrides_eq_allowed_iff]
  constructor
  · intro h
    obtain ⟨outcome, houtcome, hdecision⟩ := Except.map_eq_ok_iff.1 h
    have hne : outcome ≠ some .deny := by
      rintro rfl
      cases hdecision
    have hverified := verified_of_effectOf houtcome hne
    rw [evaluate_eq_decision hverified] at h
    exact ⟨hverified, Except.ok.inj h⟩
  · rintro ⟨hverified, hallowed⟩
    rw [evaluate_eq_decision hverified]
    exact congrArg Except.ok hallowed

/-- If all patterns verify, a request that is not allowed is denied. -/
theorem evaluate_eq_denied_iff (h : ∀ s ∈ e.document.statements, e.Verified s) :
    e.evaluate request = .ok .denied ↔ e.evaluate request ≠ .ok .allowed := by
  rw [evaluate_eq_decision h]
  cases e.decision request <;> simp

/-- **Deny overrides.**  If all action patterns verify, there is a decision: denied if some denying
statement applies, else allowed if some allowing statement applies, else the default. -/
theorem evaluate_of_verified (e : Engine) (request : Request)
    (h : ∀ s ∈ e.document.statements, e.Verified s) :
    e.evaluate request = .ok (denyOverrides e.default
      (e.SomeApplies request .deny e.document.statements)
      (e.SomeApplies request .allow e.document.statements)) :=
  evaluate_eq_decision h

/-! ### A shared bucket -/

/-- Everybody reads and writes a bucket, but without a second factor only the inbox is written. -/
def sharedBucket : Engine where
  document.version := .v2012
  document.statements := [
    { effect := .allow
      action := .is ⟨["s3:Get*", "s3:PutObject"], by decide, by decide⟩
      resource := some (.is ⟨["arn:aws:s3:::shared/*"], by decide, by decide⟩)
      principal := none
      condition := none },
    { effect := .deny
      action := .isNot ⟨["s3:Get*"], by decide, by decide⟩
      resource := some (.isNot ⟨["arn:aws:s3:::shared/inbox/*"], by decide, by decide⟩)
      principal := none
      condition := some [("Bool", .object [("aws:MultiFactorAuthPresent", .string "false")])] }]
  policyType := .identity
  catalog := .ofPairs [("s3", ["GetObject", "PutObject"])]
  matcher := .glob
  default := .denied

theorem sharedBucket_actionsFor? :
    sharedBucket.catalog.actionsFor? "s3" =
      some ((∅ : Names).insertMany ["GetObject", "PutObject"]) := by
  simp [sharedBucket, Catalog.ofPairs]

/-- A name verifies if it describes one of the two actions. -/
theorem sharedBucket_verifies (name : String) {known : String} (hname : name ≠ "")
    (hknown : known ∈ ["GetObject", "PutObject"]) (haccepts : Glob.accepts name known = true) :
    sharedBucket.catalog.Verifies ("s3" ++ ":" ++ name) :=
  ⟨_, Catalog.verify_eq_ok_iff.2 (Or.inr ⟨"s3", name, _, known, rfl, by decide, by decide, hname,
    sharedBucket_actionsFor?, by simpa using hknown, haccepts, rfl⟩)⟩

theorem sharedBucket_verifies_get : sharedBucket.catalog.Verifies "s3:Get*" :=
  sharedBucket_verifies "Get*" (by decide) List.mem_cons_self (by cbv)

theorem sharedBucket_verified :
    ∀ s ∈ sharedBucket.document.statements, sharedBucket.Verified s := by
  have hput : sharedBucket.catalog.Verifies "s3:PutObject" :=
    sharedBucket_verifies "PutObject" (by decide) (List.mem_cons_of_mem _ List.mem_cons_self)
      (by cbv)
  refine List.forall_mem_cons.2 ⟨?_, List.forall_mem_singleton.2 ?_⟩
  · exact List.forall_mem_cons.2 ⟨sharedBucket_verifies_get, List.forall_mem_singleton.2 hput⟩
  · exact List.forall_mem_singleton.2 sharedBucket_verifies_get

/-- Writing a file beside the inbox. -/
def writeNotes : Request := ⟨"s3:PutObject", "arn:aws:s3:::shared/notes", by decide⟩

theorem sharedBucket_denies_writeNotes :
    sharedBucket.SomeApplies writeNotes .deny sharedBucket.document.statements := by
  refine ⟨_, List.mem_cons_of_mem _ List.mem_cons_self, rfl, ⟨?_, ?_⟩, Or.inr rfl⟩
  · have hcut : Text.cut? ':' "s3:Get*" = some ("s3", "Get*") :=
      Text.cut?_colon_iff.2 ⟨rfl, by decide⟩
    have hsplit : ActionPattern.splitAction "s3:PutObject" = ("s3", "PutObject") :=
      ActionPattern.splitAction_eq_iff.2 ⟨by decide, Or.inl rfl⟩
    have hname : Glob.accepts "Get*" "PutObject" = false := by cbv
    have hput : patternCovers "s3:PutObject" "s3:Get*" = false := by
      simp [patternCovers, hcut, hsplit, ActionPattern.covers, hname]
    simp [ActionHolds, Clause.Holds, writeNotes, ← patternCovers_iff, hput]
  · have hnotes :
        Glob.accepts "arn:aws:s3:::shared/inbox/*" "arn:aws:s3:::shared/notes" = false := by
      simp [Glob.accepts, Glob.run, Glob.State.start, Glob.State.step?, Glob.State.advance,
        Glob.State.enterStar, Glob.State.retreat?]
    simp [ResourceHolds, Clause.Holds, sharedBucket, writeNotes, ResourceMatcher.glob, hnotes]

/-- The first statement allows to write the notes, the second denies it, and its condition is not
looked at. -/
theorem evaluate_sharedBucket :
    (∀ s ∈ sharedBucket.document.statements, sharedBucket.Verified s) ∧
      sharedBucket.evaluate writeNotes = .ok .denied := by
  refine ⟨sharedBucket_verified, ?_⟩
  rw [evaluate_of_verified sharedBucket writeNotes sharedBucket_verified, Except.ok.injEq,
    denyOverrides_eq_denied_iff]
  exact Or.inl sharedBucket_denies_writeNotes

end Engine

end AccessPolicy
