import AccessPolicy.Engine.Builder
import AccessPolicy.Proofs.Revalidation

/-!
# The last setting of each sort counts

There are four sorts of settings, and each setting is of one sort.  A setting puts its value in
place of an earlier one of its sort and leaves the other three alone (`Builder.apply_policyType` and
the like).  After any number of settings each value is therefore the last one that was set, or the
default if none was (`Builder.applyAll_eq`, by one induction for all four sorts), and an engine that
is built knows nothing else of the settings.

Main statement: `Builder.build_lastSettings`.
-/

namespace AccessPolicy

/-! ### Sorts of settings -/

namespace Setting

/-- The value of a setting of the policy type. -/
def policyType? : Setting → Option PolicyType
  | .policyType t => some t
  | .catalog _ | .matcher _ | .default _ => none

/-- The value of a setting of the catalog. -/
def catalog? : Setting → Option Catalog
  | .catalog c => some c
  | .policyType _ | .matcher _ | .default _ => none

/-- The value of a setting of the matcher. -/
def matcher? : Setting → Option ResourceMatcher
  | .matcher m => some m
  | .policyType _ | .catalog _ | .default _ => none

/-- The value of a setting of the decision by default. -/
def default? : Setting → Option Decision
  | .default answer => some answer
  | .policyType _ | .catalog _ | .matcher _ => none

end Setting

section
variable {α : Type} {sort : Setting → Option α}

/-- The value of the last setting of a sort, if there is one. -/
def lastSetting (sort : Setting → Option α) (settings : List Setting) : Option α :=
  (settings.filterMap sort).getLast?

/-- A setting counts if none of its sort comes after it. -/
@[simp] theorem lastSetting_cons (s : Setting) (settings : List Setting) :
    lastSetting sort (s :: settings) = (lastSetting sort settings).or (sort s) := by
  unfold lastSetting
  cases hs : sort s with
  | none => rw [List.filterMap_cons_none hs, Option.or_none]
  | some a =>
    rw [List.filterMap_cons_some hs, List.getLast?_cons]
    cases (settings.filterMap sort).getLast? <;> rfl

end

/-! ### Values in the end -/

/-- The policy type that settings end in. -/
def finalPolicyType (settings : List Setting) : PolicyType :=
  (lastSetting Setting.policyType? settings).getD .identity

/-- The catalog that settings end in. -/
def finalCatalog (settings : List Setting) : Catalog :=
  (lastSetting Setting.catalog? settings).getD .builtin

/-- The matcher that settings end in. -/
def finalMatcher (settings : List Setting) : ResourceMatcher :=
  (lastSetting Setting.matcher? settings).getD .glob

/-- The decision by default that settings end in. -/
def finalDefault (settings : List Setting) : Decision :=
  (lastSetting Setting.default? settings).getD .denied

namespace Builder

/-! ### One setting -/

variable (b : Builder) (s : Setting)

@[simp] theorem apply_policyType : (b.apply s).policyType = s.policyType?.getD b.policyType := by
  cases s <;> rfl

@[simp] theorem apply_catalog : (b.apply s).catalog = s.catalog?.getD b.catalog := by
  cases s <;> rfl

@[simp] theorem apply_matcher : (b.apply s).matcher = s.matcher?.getD b.matcher := by
  cases s <;> rfl

@[simp] theorem apply_default : (b.apply s).default = s.default?.getD b.default := by
  cases s <;> rfl

@[simp] theorem apply_source : (b.apply s).source = b.source := by
  cases s <;> rfl

/-! ### All settings -/

/-- What every setting treats as one of its sort is in the end as the last of these left it. -/
theorem applyAll_field {α : Type} {field : Builder → α} {sort : Setting → Option α}
    (hstep : ∀ b s, field (b.apply s) = (sort s).getD (field b)) (b : Builder)
    (settings : List Setting) :
    field (b.applyAll settings) = (lastSetting sort settings).getD (field b) := by
  induction settings generalizing b with
  | nil => rfl
  | cons s settings ih =>
    show field ((b.apply s).applyAll settings) = _
    rw [ih, hstep, lastSetting_cons, Option.getD_or]

@[simp] theorem applyAll_source (b : Builder) (settings : List Setting) :
    (b.applyAll settings).source = b.source := by
  induction settings generalizing b with
  | nil => rfl
  | cons s settings ih =>
    show ((b.apply s).applyAll settings).source = _
    rw [ih, apply_source]

/-- All that is left of the settings is the values that they end in. -/
theorem applyAll_eq (source : PolicySource) (settings : List Setting) :
    (of source).applyAll settings =
      { source, policyType := finalPolicyType settings, catalog := finalCatalog settings,
        matcher := finalMatcher settings, default := finalDefault settings } := by
  have hsource := applyAll_source (of source) settings
  have hpolicyType := applyAll_field apply_policyType (of source) settings
  have hcatalog := applyAll_field apply_catalog (of source) settings
  have hmatcher := applyAll_field apply_matcher (of source) settings
  have hdefault := applyAll_field apply_default (of source) settings
  cases hb : (of source).applyAll settings
  rw [hb] at hsource hpolicyType hcatalog hmatcher hdefault
  simp only at hsource hpolicyType hcatalog hmatcher hdefault
  rw [hsource, hpolicyType, hcatalog, hmatcher, hdefault]
  rfl

/-! ### Building -/

section
variable {b : Builder}

theorem build_eq_unreadable_iff {fault : Json.Fault} :
    b.build = .error (.unreadable fault) ↔ read b.source = .error fault := by
  unfold build
  cases read b.source with
  | error fault' => simp
  | ok v =>
    simp only [reduceCtorEq, iff_false]
    cases Document.validate v b.policyType <;> simp

theorem build_eq_invalid_iff {cause : DocumentError} :
    b.build = .error (.invalid cause) ↔
      ∃ v, read b.source = .ok v ∧ Document.validate v b.policyType = .error cause := by
  unfold build
  cases read b.source with
  | error fault => simp
  | ok v =>
    cases hv : Document.validate v b.policyType <;> simp [hv]

theorem build_eq_ok_iff {e : Engine} :
    b.build = .ok e ↔
      ∃ v d, read b.source = .ok v ∧ Document.validate v b.policyType = .ok d ∧
        e = { document := d, policyType := b.policyType, catalog := b.catalog,
              matcher := b.matcher, default := b.default } := by
  unfold build
  cases read b.source with
  | error fault => simp
  | ok v =>
    cases hv : Document.validate v b.policyType <;> simp [hv, eq_comm]

end

/-- **Only the last setting of each sort counts.**  Building fails where the text cannot be read and
where the value is no document of the policy type that was set last, for that very cause.  Otherwise
there is an engine with the validated document, which answers with the catalog, the matcher and the
default that were set last.  Settings that end in the same values build the same. -/
theorem build_lastSettings (source : PolicySource) :
    (∀ settings,
      (∀ fault, ((of source).applyAll settings).build = .error (.unreadable fault) ↔
        read source = .error fault) ∧
      (∀ cause, ((of source).applyAll settings).build = .error (.invalid cause) ↔
        ∃ v, read source = .ok v ∧
          Document.validate v (finalPolicyType settings) = .error cause) ∧
      ∀ v d, read source = .ok v → Document.validate v (finalPolicyType settings) = .ok d →
        ∃ e, ((of source).applyAll settings).build = .ok e ∧ e.document = d ∧
          e.policyType = finalPolicyType settings ∧
          (∀ action patterns, e.actionMatches action patterns =
            (finalCatalog settings).actionMatches action patterns) ∧
          (∀ resource patterns, e.resourceMatches resource patterns =
            (finalMatcher settings).matchesAny resource patterns) ∧
          ∀ request, e.evaluate request =
            Engine.evaluate
              { document := d, policyType := finalPolicyType settings,
                catalog := finalCatalog settings, matcher := finalMatcher settings,
                default := finalDefault settings } request) ∧
    ∀ settings settings', finalPolicyType settings = finalPolicyType settings' →
      finalCatalog settings = finalCatalog settings' →
      finalMatcher settings = finalMatcher settings' →
      finalDefault settings = finalDefault settings' →
        ((of source).applyAll settings).build = ((of source).applyAll settings').build := by
  constructor
  · intro settings
    rw [applyAll_eq]
    refine ⟨fun _ => build_eq_unreadable_iff, fun _ => build_eq_invalid_iff, ?_⟩
    intro v d hread hvalidate
    refine ⟨{ document := d, policyType := finalPolicyType settings,
              catalog := finalCatalog settings, matcher := finalMatcher settings,
              default := finalDefault settings }, ?_, rfl, rfl, fun _ _ => rfl, fun _ _ => rfl,
            fun _ => rfl⟩
    exact build_eq_ok_iff.2 ⟨v, d, hread, hvalidate, rfl⟩
  · intro settings settings' hpolicyType hcatalog hmatcher hdefault
    rw [applyAll_eq, applyAll_eq, hpolicyType, hcatalog, hmatcher, hdefault]

/-- Settings of all sorts, two of which change their value. -/
def changedSettings : List Setting :=
  [.policyType .trust, .catalog .empty, .default .allowed, .policyType .resource,
    .matcher .exact, .default .denied]

/-- Settings that end in the same values, one of them by never being made. -/
def plainSettings : List Setting :=
  [.matcher .exact, .catalog .builtin, .policyType .resource, .catalog .empty]

/-- The audit policy, which is no trust policy, is built as a resource policy. -/
theorem build_changedSettings :
    Document.validate auditPolicy (finalPolicyType changedSettings) = .ok auditDocument ∧
      (∃ e, ((of (.value auditPolicy)).applyAll changedSettings).build = .ok e ∧
        e.document = auditDocument ∧ e.policyType = .resource ∧
        ∀ resource patterns, e.resourceMatches resource patterns =
          ResourceMatcher.matchesAny .exact resource patterns) ∧
      ((of (.value auditPolicy)).applyAll changedSettings).build =
        ((of (.value auditPolicy)).applyAll plainSettings).build := by
  obtain ⟨hbuild, hsame⟩ := build_lastSettings (.value auditPolicy)
  obtain ⟨e, he, hdocument, hpolicyType, _, hmatcher, _⟩ :=
    (hbuild changedSettings).2.2 auditPolicy auditDocument rfl validate_auditPolicy
  exact ⟨validate_auditPolicy, ⟨e, he, hdocument, hpolicyType, hmatcher⟩,
    hsame changedSettings plainSettings rfl rfl rfl rfl⟩

end Builder

end AccessPolicy
