import AccessPolicy.Proofs.Faults
import Mathlib.Tactic.SplitIfs

/-!
# The order of checks

A value that is no policy document may be wrong in many ways.  Validation reports the first failing
check in the order of `DocumentCheck.order`, and for a statement in that of `StatementCheck.order`.

Each reader is tied to the checks it makes by `Except.Reports`, one theorem for each; the readers of
a statement and of a document are chains of these, and so are the lists of their checks
(`Statement.reports_validate`).  The values have their members in order of names, which matters in
one place only: a member that is named like no element is found from the front
(`Json.Members.Sorted.checkNames_eq_error_iff`).

Main statement: `Document.validate_eq_error_iff_firstFailure`.
-/

namespace AccessPolicy

/-! ### Names -/

/-- In a list in increasing order the first name with a property is the least. -/
theorem find?_eq_some_iff_least {names : List String} (h : names.Pairwise (· < ·))
    {p : String → Bool} {name : String} :
    names.find? p = some name ↔
      name ∈ names ∧ p name = true ∧ ∀ other ∈ names, p other = true → name ≤ other := by
  induction names with
  | nil => simp
  | cons first rest ih =>
    obtain ⟨hfirst, hrest⟩ := List.pairwise_cons.1 h
    rw [List.find?_cons]
    cases hp : p first with
    | true =>
      constructor
      · intro heq
        obtain rfl := Option.some.inj heq
        refine ⟨List.mem_cons_self, hp, List.forall_mem_cons.2 ⟨fun _ => String.le_refl _, ?_⟩⟩
        exact fun other hother _ => Std.le_of_lt (hfirst other hother)
      · rintro ⟨hname, _, hleast⟩
        rcases List.mem_cons.1 hname with rfl | hname
        · rfl
        · -- a later name is greater than the first, which has the property too
          have hle : name ≤ first := hleast first List.mem_cons_self hp
          exact absurd (hfirst name hname) (String.not_lt.2 hle)
    | false =>
      have hne : ∀ other, p other = true → other ≠ first := by
        rintro other hother rfl
        rw [hp] at hother
        cases hother
      simp only [ih hrest, List.mem_cons]
      constructor
      · rintro ⟨hname, hpname, hleast⟩
        exact ⟨Or.inr hname, hpname, fun other hother hpother =>
          hleast other (hother.resolve_left (hne other hpother)) hpother⟩
      · rintro ⟨hname, hpname, hleast⟩
        exact ⟨hname.resolve_left (hne name hpname), hpname, fun other hother =>
          hleast other (Or.inr hother)⟩

/-- Of the members that are named like nothing known the one with the least name is reported. -/
theorem Json.Members.Sorted.checkNames_eq_error_iff {members : Json.Members} (h : members.Sorted)
    {α ε : Type} [Worded α] {unknown : String → ε} {known : List String}
    (hknown : ∀ name, (∃ a : α, Worded.text a = name) ↔ name ∈ known) {cause : ε} :
    Worded.checkNames α unknown members.names = .error cause ↔
      ∃ name, members.LeastUnknown known name ∧ cause = unknown name := by
  have hunknown : ∀ name, (Worded.ofText? name : Option α).isNone = true ↔ name ∉ known := by
    intro name
    rw [← hknown, Option.isNone_iff_eq_none, Option.eq_none_iff_forall_not_mem, not_exists]
    simp only [Option.mem_def, Worded.ofText?_eq_some_iff]
  rw [Worded.checkNames_eq_error_iff]
  simp only [find?_eq_some_iff_least h.pairwise_names, hunknown, Text.le_iff_bytes_le]
  rfl

/-! ### Presence -/

/-- What the type of a policy asks of a pair. -/
def PolicyType.requirement (t : PolicyType) : ElementPair → Requirement
  | .action => .either
  | .resource => t.resourceRequirement
  | .principal => t.principalRequirement

theorem PolicyType.missing?_eq_some_iff {t : PolicyType} {pair : ElementPair}
    {cause : StatementError} :
    t.missing? pair = some cause ↔
      t.requirement pair = .either ∧ cause = .pairRequired pair ∨
        t.requirement pair = .positive ∧ cause = .elementRequired pair.positive := by
  cases t <;> cases pair <;>
    simp [missing?, requirement, resourceRequirement, principalRequirement, ElementPair.positive,
      eq_comm]

theorem PolicyType.forbids_iff {t : PolicyType} {pair : ElementPair} :
    t.Forbids pair ↔ t.requirement pair = .forbidden := by
  cases t <;> cases pair <;>
    simp [Forbids, requirement, resourceRequirement, principalRequirement]

theorem Requirement.check_eq_error_iff {α : Type} {pair : ElementPair} {requirement : Requirement}
    {found : Option (Clause α)} {cause : StatementError} :
    requirement.check pair found = .error cause ↔
      found.isSome = false ∧ (requirement = .either ∧ cause = .pairRequired pair ∨
          requirement = .positive ∧ cause = .elementRequired pair.positive) ∨
        found.isSome = true ∧ requirement = .forbidden ∧ cause = .pairNotAllowed pair := by
  cases requirement <;> cases found <;> simp [check, eq_comm]

/-! ### Words and resources -/

/-- A text is no word if it is different from all words. -/
theorem Worded.forall_string_ne_iff (α : Type) [Worded α] {s : String} :
    (∀ a : α, Json.string s ≠ .string (text a)) ↔ (ofText? s : Option α) = none := by
  rw [Option.eq_none_iff_forall_not_mem]
  refine forall_congr' fun a => not_congr ?_
  rw [Json.string.injEq, Option.mem_def, ofText?_eq_some_iff, eq_comm]

/-- What is no word is reported as it is quoted. -/
@[simp] theorem Worded.ofJson_eq_error_iff {α ε : Type} [Worded α] {invalid : String → ε} {v : Json}
    {cause : ε} :
    (ofJson invalid v : Except ε α) = .error cause ↔
      (∀ a : α, v ≠ .string (text a)) ∧ cause = invalid v.quote := by
  cases v with
  | string s =>
    rw [forall_string_ne_iff, ofJson]
    cases (ofText? s : Option α) <;> simp [Json.quote, eq_comm]
  | null | bool _ | number _ | array _ | object _ => simp [ofJson, Json.quote, eq_comm]

@[simp] theorem Document.required_eq_error_iff {members : Json.Members} {element : DocumentElement}
    {cause : DocumentError} :
    required members element = .error cause ↔
      element.text ∉ members.names ∧ cause = .missingElement element := by
  rw [← Json.Members.get?_eq_none_iff]
  unfold required
  cases members.get? element.text <;> simp [eq_comm]

theorem ElementPair.wellFormed_action_iff (v : Json) :
    ElementPair.action.WellFormed v ↔ ∃ list, ValueList.ofJson? v = some list := by
  refine Json.isTexts_iff.trans ?_
  simp only [implies_true, and_true]

theorem ElementPair.wellFormed_resource_iff (v : Json) :
    ElementPair.resource.WellFormed v ↔ ∃ list, ValueList.ofJson? v = some list :=
  ElementPair.wellFormed_action_iff v

theorem ElementPair.wellFormed_principal_iff (v : Json) :
    ElementPair.principal.WellFormed v ↔ ∃ p, Principal.ofJson? v = some p := isPrincipal_iff

theorem hasTexts_of_ofJson? {v : Json} {list : ValueList} (h : ValueList.ofJson? v = some list) :
    v.HasTexts list.values :=
  ValueList.ofJson?_eq_some_iff.1 h

theorem Json.HasTexts.unique {v : Json} {texts texts' : List String} (h : v.HasTexts texts)
    (h' : v.HasTexts texts') : texts = texts' := by
  rcases h with ⟨s, rfl, rfl⟩ | rfl
  · rcases h' with ⟨s', hs, rfl⟩ | h'
    · rw [Json.string.inj hs]
    · cases h'
  · rcases h' with ⟨s', hs, rfl⟩ | h'
    · cases hs
    · exact List.map_injective_iff.2 (fun _ _ => Json.string.inj) (Json.array.inj h')

/-! ### The parts of a statement -/

namespace Statement

section
variable {α : Type} {members : Json.Members} {pair : ElementPair} {read : Json → Option α}
  {found : Option (Clause Json)}

/-- What is found for a pair is what stands under one of its names. -/
theorem exists_value_iff_of_findClause (h : findClause members pair = .ok found) {v : Json} :
    (∃ name ∈ pair.names, members.get? name = some v) ↔ ∃ clause ∈ found, clause.value = v := by
  obtain ⟨hpositive, hnegative⟩ := findClause_eq_ok_iff.1 h
  have hnames : (∃ name ∈ pair.names, members.get? name = some v) ↔
      found.bind Clause.positive? = some v ∨ found.bind Clause.negative? = some v := by
    rw [← hpositive, ← hnegative]
    simp [ElementPair.names]
  rw [hnames]
  rcases found with _ | w | w <;> simp

/-- A clause is found if one of the names of the pair is there. -/
theorem isSome_iff_of_findClause (h : findClause members pair = .ok found) :
    found.isSome = true ↔ ∃ name ∈ pair.names, name ∈ members.names := by
  have hvalue : (∃ name ∈ pair.names, name ∈ members.names) ↔
      ∃ v, ∃ name ∈ pair.names, members.get? name = some v := by
    simp only [← Json.Members.isSome_get?_iff, Option.isSome_iff_exists]
    constructor
    · rintro ⟨name, hname, v, hv⟩
      exact ⟨v, name, hname, hv⟩
    · rintro ⟨v, name, hname, hv⟩
      exact ⟨name, hname, v, hv⟩
  rw [hvalue]
  simp only [exists_value_iff_of_findClause h]
  cases found <;> simp

theorem findClause_eq_error_iff {cause : StatementError} :
    findClause members pair = .error cause ↔
      (∀ name ∈ pair.names, name ∈ members.names) ∧ cause = .mutuallyExclusive pair := by
  have hnames : (∀ name ∈ pair.names, name ∈ members.names) ↔
      (members.get? pair.positive.text).isSome = true ∧
        (members.get? pair.negative.text).isSome = true := by
    simp [ElementPair.names]
  rw [hnames]
  unfold findClause
  cases members.get? pair.positive.text <;> cases members.get? pair.negative.text <;>
    simp [eq_comm]

@[simp] theorem readValue_eq_error_iff {element : Element} {v : Json} {cause : StatementError} :
    readValue element read v = .error cause ↔
      read v = none ∧ cause = .incorrectDefinition element := by
  unfold readValue
  cases read v <;> simp [eq_comm]

theorem mapM_readValue_eq_error_iff {element : Element} {cause : StatementError} :
    found.mapM (Clause.mapExcept (readValue element read)) = .error cause ↔
      (∃ clause ∈ found, read clause.value = none) ∧ cause = .incorrectDefinition element := by
  cases found with
  | none => simp
  | some clause =>
    change Except.map some _ = _ ↔ _
    rcases clause with v | v <;> simp

theorem readEffect_eq_error_iff {cause : StatementError} :
    readEffect members = .error cause ↔
      members.get? Element.effect.text = none ∧ cause = .elementRequired .effect ∨
        ∃ v, members.get? Element.effect.text = some v ∧
          (∀ effect : Effect, v ≠ .string effect.text) ∧ cause = .invalidEffect v.quote := by
  unfold readEffect
  cases members.get? Element.effect.text with
  | none => simp [eq_comm]
  | some v =>
    simp only [reduceCtorEq, false_and, false_or, Option.some.injEq, exists_eq_left']
    exact Worded.ofJson_eq_error_iff

theorem firstArnError?_eq_some_iff {resources : List String} {cause : ArnError} :
    firstArnError? resources = some cause ↔
      FirstFailure (fun resource cause => resource ≠ "*" ∧ Arn.parse resource = .error cause)
        resources cause := by
  unfold firstArnError?
  refine findSome?_eq_some_iff_firstFailure.trans (firstFailure_congr fun resource cause => ?_)
  split_ifs with hstar
  · simp [hstar]
  · cases Arn.parse resource <;> simp [hstar]

theorem checkResources_eq_error_iff {clause : Option (Clause ValueList)} {cause : StatementError} :
    checkResources clause = .error cause ↔
      ∃ c ∈ clause, ∃ arnCause,
        FirstFailure (fun resource cause => resource ≠ "*" ∧ Arn.parse resource = .error cause)
          c.value.values arnCause ∧ cause = .invalidResourceArn arnCause := by
  cases clause with
  | none => simp [checkResources]
  | some clause =>
    simp only [Option.mem_some_iff, exists_eq_left', ← firstArnError?_eq_some_iff]
    cases hfirst : firstArnError? clause.value.values <;> simp [checkResources, hfirst, eq_comm]

end

/-! ### The checks of a statement -/

section
variable {t : PolicyType} {members : Json.Members} {pair : ElementPair}

theorem reports_checkNames (h : members.Sorted) :
    (Worded.checkNames Element .unsupportedElement members.names).Reports
      (Fails t (.object members)) [.names] := by
  refine .singleton fun cause =>
    (h.checkNames_eq_error_iff fun _ => Element.exists_text_iff).trans ?_
  constructor
  · rintro ⟨name, hname, rfl⟩
    exact .names hname
  · intro hfails
    cases hfails with
    | names hname => exact ⟨_, hname, rfl⟩

theorem reports_checkedClause :
    (checkedClause members pair (t.requirement pair)).Reports (Fails t (.object members))
      [.exclusive pair, .presence pair] := by
  have hexclusive :
      (findClause members pair).Reports (Fails t (.object members)) [.exclusive pair] := by
    refine .singleton fun cause => findClause_eq_error_iff.trans ?_
    constructor
    · rintro ⟨h, rfl⟩
      exact .exclusive h
    · intro hfails
      cases hfails with
      | exclusive h => exact ⟨h, rfl⟩
  refine hexclusive.bind fun found hfound => .singleton fun cause => ?_
  have hsome := isSome_iff_of_findClause hfound
  have hnone : found.isSome = false ↔ ∀ name ∈ pair.names, name ∉ members.names := by
    rw [← Bool.not_eq_true, hsome]
    simp only [not_exists, not_and]
  rw [Requirement.check_eq_error_iff, hnone, hsome, ← PolicyType.missing?_eq_some_iff,
    ← PolicyType.forbids_iff]
  constructor
  · rintro (⟨h, hcause⟩ | ⟨h, hforbids, rfl⟩)
    · exact .missing h hcause
    · exact .forbidden h hforbids
  · intro hfails
    cases hfails with
    | missing h hcause => exact Or.inl ⟨h, hcause⟩
    | forbidden h hforbids => exact Or.inr ⟨h, hforbids, rfl⟩

theorem reports_requiredClause :
    (requiredClause members .action).Reports (Fails t (.object members))
      [.exclusive .action, .presence .action] := by
  have hmap : checkedClause members .action .either =
      (requiredClause members .action).map some := by
    unfold checkedClause requiredClause
    cases findClause members .action with
    | error cause => rfl
    | ok found => cases found <;> rfl
  rw [← Except.Reports.map_iff, ← hmap]
  exact reports_checkedClause (t := t)

/-- The values of a pair are refused if they are not of the right form. -/
theorem reports_value {α : Type} {read : Json → Option α} {found : Option (Clause Json)}
    (hread : ∀ v, pair.WellFormed v ↔ ∃ a, read v = some a)
    (hfound : findClause members pair = .ok found) :
    (found.mapM (Clause.mapExcept (readValue pair.positive read))).Reports
      (Fails t (.object members)) [.value pair] := by
  have hmalformed : ∀ v, read v = none ↔ ¬ pair.WellFormed v := by
    intro v
    rw [hread, Option.eq_none_iff_forall_not_mem, not_exists]
    rfl
  refine .singleton fun cause => mapM_readValue_eq_error_iff.trans ?_
  simp only [hmalformed]
  constructor
  · rintro ⟨⟨clause, hclause, h⟩, rfl⟩
    obtain ⟨name, hname, hv⟩ := (exists_value_iff_of_findClause hfound).2 ⟨clause, hclause, rfl⟩
    exact .value hname hv h
  · intro hfails
    cases hfails with
    | value hname hv h =>
      obtain ⟨clause, hclause, rfl⟩ := (exists_value_iff_of_findClause hfound).1 ⟨_, hname, hv⟩
      exact ⟨⟨clause, hclause, h⟩, rfl⟩

theorem reports_readCondition :
    (readCondition members).Reports (Fails t (.object members)) [.condition] := by
  refine .singleton fun cause => ?_
  unfold readCondition
  constructor
  · intro herror
    split at herror
    · cases herror
    · cases herror
    · rename_i v hobject hv
      obtain rfl := Except.error.inj herror
      exact .condition hv hobject
  · intro hfails
    cases hfails with
    | condition hv hobject =>
      rename_i v
      rw [show members.get? Element.condition.text = some v from hv]
      cases v with
      | object condition => exact absurd rfl (hobject condition)
      | null | bool _ | number _ | string _ | array _ => rfl

theorem reports_readEffect :
    (readEffect members).Reports (Fails t (.object members)) [.effect] := by
  refine .singleton fun cause => readEffect_eq_error_iff.trans ?_
  constructor
  · rintro (⟨hnone, rfl⟩ | ⟨v, hv, hword, rfl⟩)
    · exact .noEffect (Json.Members.get?_eq_none_iff.1 hnone)
    · exact .effect hv ⟨hword .allow, hword .deny⟩
  · intro hfails
    cases hfails with
    | noEffect h => exact Or.inl ⟨Json.Members.get?_eq_none_iff.2 h, rfl⟩
    | effect hv h =>
      refine Or.inr ⟨_, hv, ?_, rfl⟩
      rintro (_ | _)
      · exact h.1
      · exact h.2

/-- The resources are looked through in the order in which they are listed. -/
theorem reports_checkResources {resource : Option (Clause ValueList)}
    (hread : ReadsClause members .resource ValueList.ofJson? resource) :
    (checkResources resource).Reports (Fails t (.object members)) [.resourceNames] := by
  refine .singleton fun cause => checkResources_eq_error_iff.trans ?_
  constructor
  · rintro ⟨clause, hclause, arnCause, hfirst, rfl⟩
    obtain ⟨name, hname, v, hv, hlist⟩ := hread.exists_member hclause
    exact .resourceNames hname hv (hasTexts_of_ofJson? hlist) hfirst
  · intro hfails
    cases hfails with
    | resourceNames hname hv hresources hfirst =>
      obtain ⟨clause, hclause, hlist⟩ := hread.exists_value hname hv
      obtain rfl := hresources.unique (hasTexts_of_ofJson? hlist)
      exact ⟨clause, hclause, _, hfirst, rfl⟩

theorem reports_validate_object (h : members.Sorted) :
    (validate t (.object members)).Reports (Fails t (.object members)) StatementCheck.order := by
  have hobject : ∀ cause, ¬ Fails t (.object members) .object cause := by
    intro cause hfails
    cases hfails with
    | object h => exact h members rfl
  -- each step of the reader takes its checks off the front of the list
  unfold validate
  refine .cons hobject ?_
  refine (reports_checkNames h).bind fun _ _ => ?_
  refine reports_requiredClause.bind fun action haction => ?_
  refine reports_checkedClause.bind fun resource hresource => ?_
  refine reports_checkedClause.bind fun principal hprincipal => ?_
  -- what was found, whether or not it is asked for
  have haction := requiredClause_eq_ok_iff.1 haction
  have hresource := (checkedClause_eq_ok_iff.1 hresource).1
  have hprincipal := (checkedClause_eq_ok_iff.1 hprincipal).1
  have hactionValue : (action.mapExcept (readValue .action ValueList.ofJson?)).Reports
      (Fails t (.object members)) [.value .action] := by
    rw [← Except.Reports.map_iff (f := some)]
    exact reports_value ElementPair.wellFormed_action_iff haction
  refine hactionValue.bind fun action' _ => ?_
  refine (reports_value ElementPair.wellFormed_resource_iff hresource).bind
    fun resource' hresource' => ?_
  refine (reports_value ElementPair.wellFormed_principal_iff hprincipal).bind fun principal' _ => ?_
  refine reports_readCondition.bind fun condition _ => ?_
  refine reports_readEffect.bind fun effect _ => ?_
  -- only resources that were read are looked through
  have hread : ReadsClause members .resource ValueList.ofJson? resource' :=
    (exists_findClause_iff .resource).1 ⟨resource, hresource, hresource'⟩
  exact (reports_checkResources hread).bind fun _ _ => .ok _

/-- A statement reports the first thing that is wrong with it. -/
theorem reports_validate {v : Json} (h : v.Canonical) :
    (validate t v).Reports (Fails t v) StatementCheck.order := by
  cases v with
  | object members => exact reports_validate_object h.1
  | null | bool _ | number _ | string _ | array _ =>
    refine .error fun cause => ⟨fun hfails => ?_, ?_⟩
    · cases hfails with
      | object _ => rfl
    · rintro rfl
      exact .object (by simp)

end

end Statement

/-! ### The checks of a document -/

namespace Document
variable {t : PolicyType} {members : Json.Members}

theorem reports_required {element : DocumentElement} :
    (required members element).Reports (Fails t (.object members)) [.presence element] := by
  refine .singleton fun cause => ?_
  rw [required_eq_error_iff]
  constructor
  · rintro ⟨h, rfl⟩
    exact .presence h
  · intro hfails
    cases hfails with
    | presence h => exact ⟨h, rfl⟩

theorem reports_checkNames (h : members.Sorted) :
    (Worded.checkNames DocumentElement .unsupportedElement members.names).Reports
      (Fails t (.object members)) [.names] := by
  refine .singleton fun cause => (h.checkNames_eq_error_iff fun _ =>
    DocumentElement.exists_text_iff.trans List.mem_pair.symm).trans ?_
  constructor
  · rintro ⟨name, hname, rfl⟩
    exact .names hname
  · intro hfails
    cases hfails with
    | names hname => exact ⟨_, hname, rfl⟩

theorem reports_version {v : Json} (hv : members.get? "Version" = some v) :
    (Worded.ofJson .invalidVersion v : Except DocumentError Version).Reports
      (Fails t (.object members)) [.version] := by
  refine .singleton fun cause => Worded.ofJson_eq_error_iff.trans ?_
  constructor
  · rintro ⟨hword, rfl⟩
    exact .version hv ⟨hword .v2008, hword .v2012⟩
  · intro hfails
    cases hfails with
    | version hv' h =>
      obtain rfl := Option.some.inj (hv.symm.trans hv')
      refine ⟨?_, rfl⟩
      rintro (_ | _)
      · exact h.1
      · exact h.2

theorem reports_listed {v : Json} (hv : members.get? "Statement" = some v) :
    (listed v).Reports (Fails t (.object members)) [.listed] := by
  refine .singleton fun cause => ?_
  constructor
  · intro herror
    cases v with
    | array _ | object _ => cases herror
    | null | bool _ | number _ | string _ =>
      obtain rfl := Except.error.inj herror
      exact .listed hv ⟨by simp, by simp⟩
  · intro hfails
    cases hfails with
    | listed hv' h =>
      obtain rfl := Option.some.inj (hv.symm.trans hv')
      cases v with
      | array items => exact absurd rfl (h.1 items)
      | object statement => exact absurd rfl (h.2 statement)
      | null | bool _ | number _ | string _ => rfl

/-- The statements are gone through in order, each with all its checks. -/
theorem reports_validateStatements {items : List Json} (h : ∀ v ∈ items, v.Canonical)
    (index : Nat) :
    (validateStatements t index items).Reports (Fails t (.object members))
      ((items.zipIdx index).map fun (v, index) => .statement index v) := by
  induction items generalizing index with
  | nil => exact .ok []
  | cons v items ih =>
    obtain ⟨hv, hitems⟩ := List.forall_mem_cons.1 h
    -- a cause inside the first statement is reported with its number
    have hfirst : ((Statement.validate t v).mapError (.invalidStatement index)).Reports
        (Fails t (.object members)) [.statement index v] := by
      refine .singleton fun cause => Except.mapError_eq_error_iff.trans ?_
      constructor
      · rintro ⟨cause, hcause, rfl⟩
        exact .statement ((Statement.reports_validate hv cause).1 hcause)
      · intro hfails
        cases hfails with
        | statement hcause => exact ⟨_, (Statement.reports_validate hv _).2 hcause, rfl⟩
    have hbind : validateStatements t index (v :: items) =
        (Statement.validate t v).mapError (.invalidStatement index) >>= fun statement =>
          (validateStatements t (index + 1) items).map (statement :: ·) := by
      rw [validateStatements]
      cases Statement.validate t v <;> rfl
    rw [hbind]
    exact hfirst.bind fun _ _ => Except.Reports.map_iff.2 (ih hitems (index + 1))

theorem statementValues_eq {statement : Json} {items : List Json}
    (hstatement : members.get? "Statement" = some statement)
    (hitems : listed statement = .ok items) : statementValues (.object members) = items := by
  simp only [statementValues, hstatement]
  rcases listed_eq_ok_iff.1 hitems with rfl | ⟨_, rfl, rfl⟩ <;> rfl

theorem reports_validate_object (h : (Json.object members).Canonical) :
    (validate (.object members) t).Reports (Fails t (.object members))
      (DocumentCheck.order (statementValues (.object members))) := by
  have hobject : ∀ cause, ¬ Fails t (.object members) .object cause := by
    intro cause hfails
    cases hfails with
    | object h => exact h members rfl
  unfold validate
  refine .cons hobject ?_
  refine reports_required.bind fun version hversion => ?_
  refine reports_required.bind fun statement hstatement => ?_
  refine (reports_checkNames h.1).bind fun _ _ => ?_
  refine (reports_version (required_eq_ok_iff.1 hversion)).bind fun version' _ => ?_
  have hstatement := required_eq_ok_iff.1 hstatement
  refine (reports_listed hstatement).bind fun items hitems => ?_
  have hcanonical : statement.Canonical :=
    h.2.canonical_of_mem (Json.Members.mem_of_get?_eq_some hstatement)
  rw [statementValues_eq hstatement hitems, ← List.append_nil (List.map _ _)]
  exact (reports_validateStatements (canonical_of_listed hcanonical hitems) 0).bind fun _ _ => .ok _

/-- **Validation reports the first failing check.**  Whatever else is wrong with a value, the error
is that of the first check that fails: first those of the outline, then those of one statement after
the other. -/
theorem validate_eq_error_iff_firstFailure (v : Json) (t : PolicyType) (h : v.Canonical)
    (cause : DocumentError) :
    validate v t = .error cause ↔
      FirstFailure (Fails t v) (DocumentCheck.order (statementValues v)) cause := by
  revert cause
  change (validate v t).Reports _ _
  cases v with
  | object members => exact reports_validate_object h
  | null | bool _ | number _ | string _ | array _ =>
    refine .error fun cause => ⟨fun hfails => ?_, ?_⟩
    · cases hfails with
      | object _ => rfl
    · rintro rfl
      exact .object (by simp)

/-- A policy with a good statement and one with many faults: its action is an empty list, its effect
no effect, and the second of its resources no name. -/
def faultyPolicy : Json :=
  .object [
    ("Statement", .array [
      .object [("Action", .string "s3:GetObject"), ("Effect", .string "Allow"),
        ("Resource", .string "*")],
      .object [("Effect", .string "Maybe"), ("NotAction", .array []),
        ("Resource", .array [.string "*", .string "notes"])]]),
    ("Version", .string "2012-10-17")]

/-- Of the faults the action comes first, and is named though the statement has the other one of the
pair. -/
theorem validate_faultyPolicy :
    faultyPolicy.Canonical ∧
      validate faultyPolicy .identity =
        .error (.invalidStatement 1 (.incorrectDefinition .action)) ∧
      FirstFailure (Fails .identity faultyPolicy)
        (DocumentCheck.order (statementValues faultyPolicy))
        (.invalidStatement 1 (.incorrectDefinition .action)) := by
  have hcanonical : faultyPolicy.Canonical := by
    have heq : faultyPolicy.canonical = faultyPolicy := by decide
    rw [← heq]
    exact Json.canonical_canonical _
  have herror : validate faultyPolicy .identity =
      .error (.invalidStatement 1 (.incorrectDefinition .action)) := by decide
  have hiff := validate_eq_error_iff_firstFailure faultyPolicy .identity hcanonical
  exact ⟨hcanonical, herror, (hiff _).1 herror⟩

end Document

end AccessPolicy
