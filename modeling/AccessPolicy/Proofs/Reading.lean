import AccessPolicy.Document.Validation
import AccessPolicy.Proofs.Except
import AccessPolicy.Proofs.Members
import Mathlib.Tactic.SplitIfs

/-!
# What validation reads

Validation is a chain of checks that ends with the first failure.  Here is what it means that it
ends with a result, one equivalence for each reader.  A statement that is read has two independent
properties, and together they are all (`Statement.validate_eq_ok_iff`):

* `Statement.ReadFrom` ties the statement to the members of the object it was read from; the type of
  the policy has no part in it.
* `Statement.Admitted` is what the type of the policy asks of the statement, however it was written.

A document is read from its version and from the list of its statements, each on its own
(`Document.validate_eq_ok_iff`).
-/

namespace AccessPolicy

/-! ### Words -/

@[simp] theorem Worded.ofJson_eq_ok_iff {α ε : Type} [Worded α] {invalid : String → ε} {v : Json}
    {a : α} :
    ofJson invalid v = .ok a ↔ v = .string (text a) := by
  cases v with
  | string s =>
    rw [ofJson, Json.string.injEq, @eq_comm _ s, ← ofText?_eq_some_iff]
    cases (ofText? s : Option α) <;> simp
  | null | bool _ | number _ | array _ | object _ => simp [ofJson]

/-! ### Lists of values -/

@[simp] theorem Json.mapM_string?_eq_some_iff {items : List Json} {values : List String} :
    items.mapM string? = some values ↔ items = values.map .string := by
  induction items generalizing values with
  | nil =>
    rw [List.mapM_nil, eq_comm]
    simp
  | cons item items ih =>
    rw [List.mapM_cons]
    cases values with
    | nil => simp [Option.bind_eq_some_iff]
    | cons value values => simp [Option.bind_eq_some_iff, ih]

@[simp] theorem Json.strings?_eq_some_iff {v : Json} {values : List String} :
    v.strings? = some values ↔ v = .array (values.map .string) := by
  cases v with
  | array items => simp only [strings?, mapM_string?_eq_some_iff, array.injEq]
  | _ => simp [strings?]

theorem Json.exists_map_string {p : String → Prop} {items : List Json}
    (h : ∀ v ∈ items, ∃ s, v = .string s ∧ p s) :
    ∃ values : List String, items = values.map .string ∧ ∀ s ∈ values, p s := by
  induction items with
  | nil => exact ⟨[], rfl, by simp⟩
  | cons v items ih =>
    rw [List.forall_mem_cons] at h
    obtain ⟨s, rfl, hs⟩ := h.1
    obtain ⟨values, rfl, hvalues⟩ := ih h.2
    exact ⟨s :: values, rfl, List.forall_mem_cons.2 ⟨hs, hvalues⟩⟩

theorem ValueList.ofJson?_eq_some_iff {v : Json} {list : ValueList} :
    ofJson? v = some list ↔
      (∃ s, v = .string s ∧ list.values = [s]) ∨ v = .array (list.values.map .string) := by
  cases v with
  | string s => simp [ofJson?]
  | array items =>
    simp [ofJson?, Json.strings?, Option.bind_eq_some_iff]
  | null | bool _ | number _ | object _ => simp [ofJson?, Json.strings?]

/-! ### Principals -/

/-- Identifiers are read from members that all have known kinds and lists of values. -/
theorem PrincipalIds.ofMembers?_eq_some_iff {members : Json.Members} {ids : PrincipalIds} :
    ofMembers? members = some ids ↔
      (∀ m ∈ members, (∃ kind : PrincipalKind, kind.text = m.1) ∧
        ∃ list, ValueList.ofJson? m.2 = some list) ∧
      ∀ kind, ids.get? kind = (members.get? kind.text).bind ValueList.ofJson? := by
  have hmembers : (∀ m ∈ members, (Worded.ofText? m.1 : Option PrincipalKind).isSome ∧
        (ValueList.ofJson? m.2).isSome) ↔
      ∀ m ∈ members, (∃ kind : PrincipalKind, kind.text = m.1) ∧
        ∃ list, ValueList.ofJson? m.2 = some list := by
    simp only [Option.isSome_iff_exists, Worded.ofText?_eq_some_iff]
    rfl
  rw [← hmembers]
  unfold ofMembers?
  dsimp only
  split_ifs with hall hsome
  · rw [Option.some.injEq, and_iff_right hall]
    constructor
    · rintro rfl kind
      rfl
    · intro h
      exact ext fun kind => (h kind).symm
  · -- no kind has a list, but identifiers have one of some kind
    simp only [false_iff]
    rintro ⟨_, h⟩
    obtain ⟨kind, hkind⟩ := ids.nonempty
    exact hsome ⟨kind, Worded.mem_all kind, h kind ▸ hkind⟩
  · simp only [hall, false_and]

/-! ### Clauses -/

namespace Clause
variable {α : Type}

/-- The value of a positive clause. -/
def positive? : Clause α → Option α
  | .is a => some a
  | .isNot _ => none

/-- The value of a negative clause. -/
def negative? : Clause α → Option α
  | .is _ => none
  | .isNot a => some a

@[simp] theorem positive?_is (a : α) : (is a).positive? = some a := rfl

@[simp] theorem positive?_isNot (a : α) : (isNot a).positive? = none := rfl

@[simp] theorem negative?_is (a : α) : (is a).negative? = none := rfl

@[simp] theorem negative?_isNot (a : α) : (isNot a).negative? = some a := rfl

end Clause

section
variable {α : Type} {members : Json.Members} {pair : ElementPair} {read : Json → Option α}

/-- Under the two names of a pair stand the values that a clause has in positive and in negative
form, as `read` reads them; where it has none nothing stands. -/
def ReadsClause (members : Json.Members) (pair : ElementPair) (read : Json → Option α)
    (clause : Option (Clause α)) : Prop :=
  (members.get? pair.positive.text).map read = (clause.bind Clause.positive?).map some ∧
    (members.get? pair.negative.text).map read = (clause.bind Clause.negative?).map some

@[simp] theorem readsClause_none_iff :
    ReadsClause members pair read none ↔
      members.get? pair.positive.text = none ∧ members.get? pair.negative.text = none := by
  simp [ReadsClause]

@[simp] theorem readsClause_is_iff {a : α} :
    ReadsClause members pair read (some (.is a)) ↔
      (∃ v, members.get? pair.positive.text = some v ∧ read v = some a) ∧
        members.get? pair.negative.text = none := by
  simp [ReadsClause]

@[simp] theorem readsClause_isNot_iff {a : α} :
    ReadsClause members pair read (some (.isNot a)) ↔
      members.get? pair.positive.text = none ∧
        ∃ v, members.get? pair.negative.text = some v ∧ read v = some a := by
  simp [ReadsClause]

/-- Only one clause is read. -/
theorem ReadsClause.unique {clause clause' : Option (Clause α)}
    (h : ReadsClause members pair read clause) (h' : ReadsClause members pair read clause') :
    clause = clause' := by
  have hpositive := h.1.symm.trans h'.1
  have hnegative := h.2.symm.trans h'.2
  rcases clause with _ | a | a <;> rcases clause' with _ | a' | a' <;>
    simp_all

/-- What a requirement says on the presence of a clause. -/
def Requirement.Admits : Requirement → Bool → Prop
  | .either, present | .positive, present => present = true
  | .forbidden, present => present = false
  | .optional, _ => True

@[simp] theorem Requirement.check_eq_ok_iff {requirement : Requirement}
    {found clause : Option (Clause α)} :
    requirement.check pair found = .ok clause ↔
      found = clause ∧ requirement.Admits clause.isSome := by
  cases requirement <;> cases found <;> cases clause <;> simp [check, Admits]

end

/-- What a resource clause may hold: `*` and resource names. -/
def IsResource (resource : String) : Prop :=
  resource = "*" ∨ ∃ arn, Arn.parse resource = .ok arn

/-! ### Elements of a statement -/

namespace Statement

section
variable {α : Type} {members : Json.Members} {pair : ElementPair} {read : Json → Option α}

theorem findClause_eq_ok_iff {clause : Option (Clause Json)} :
    findClause members pair = .ok clause ↔
      members.get? pair.positive.text = clause.bind Clause.positive? ∧
        members.get? pair.negative.text = clause.bind Clause.negative? := by
  unfold findClause
  cases members.get? pair.positive.text <;> cases members.get? pair.negative.text <;>
    rcases clause with _ | _ | _ <;> simp

theorem requiredClause_eq_ok_iff {clause : Clause Json} :
    requiredClause members pair = .ok clause ↔ findClause members pair = .ok (some clause) := by
  unfold requiredClause
  rw [Except.bind_eq_ok_iff]
  constructor
  · rintro ⟨_ | found, hfound, h⟩
    · cases h
    · rw [hfound, Except.ok.inj h]
  · intro h
    exact ⟨some clause, h, rfl⟩

theorem checkedClause_eq_ok_iff {requirement : Requirement} {clause : Option (Clause Json)} :
    checkedClause members pair requirement = .ok clause ↔
      findClause members pair = .ok clause ∧ requirement.Admits clause.isSome := by
  unfold checkedClause
  rw [Except.bind_eq_ok_iff]
  simp only [Requirement.check_eq_ok_iff]
  constructor
  · rintro ⟨_, hfound, rfl, hadmits⟩
    exact ⟨hfound, hadmits⟩
  · rintro ⟨hfound, hadmits⟩
    exact ⟨clause, hfound, rfl, hadmits⟩

@[simp] theorem readValue_eq_ok_iff {element : Element} {v : Json} {a : α} :
    readValue element read v = .ok a ↔ read v = some a := by
  unfold readValue
  cases read v <;> simp

theorem mapExcept_readValue_eq_ok_iff {element : Element} {found : Clause Json}
    {clause : Clause α} :
    found.mapExcept (readValue element read) = .ok clause ↔
      found.positive?.map read = clause.positive?.map some ∧
        found.negative?.map read = clause.negative?.map some := by
  rcases found with v | v <;> rcases clause with a | a <;>
    simp

/-- The value of a clause that was found is read, in the form in which it was found. -/
theorem mapM_readValue_eq_ok_iff {element : Element} {found : Option (Clause Json)}
    {clause : Option (Clause α)} :
    found.mapM (Clause.mapExcept (readValue element read)) = .ok clause ↔
      (found.bind Clause.positive?).map read = (clause.bind Clause.positive?).map some ∧
        (found.bind Clause.negative?).map read = (clause.bind Clause.negative?).map some := by
  cases found with
  | none =>
    rcases clause with _ | a | a <;> simp
  | some found =>
    change Except.map some _ = _ ↔ _
    rw [Except.map_eq_ok_iff]
    cases clause with
    | none => rcases found with v | v <;> simp
    | some clause => simp [mapExcept_readValue_eq_ok_iff]

theorem isSome_of_mapM_readValue {element : Element} {found : Option (Clause Json)}
    {clause : Option (Clause α)}
    (h : found.mapM (Clause.mapExcept (readValue element read)) = .ok clause) :
    found.isSome = clause.isSome := by
  obtain ⟨hpositive, hnegative⟩ := mapM_readValue_eq_ok_iff.1 h
  rcases found with _ | v | v <;> rcases clause with _ | a | a <;>
    simp at hpositive hnegative ⊢

/-- A clause is found and its value defined exactly if the clause can be read. -/
theorem exists_findClause_iff (element : Element) {clause : Option (Clause α)} :
    (∃ found, findClause members pair = .ok found ∧
        found.mapM (Clause.mapExcept (readValue element read)) = .ok clause) ↔
      ReadsClause members pair read clause := by
  simp only [findClause_eq_ok_iff, mapM_readValue_eq_ok_iff]
  constructor
  · rintro ⟨found, ⟨hpositive, hnegative⟩, hread⟩
    rw [ReadsClause, hpositive, hnegative]
    exact hread
  · intro h
    rcases clause with _ | a | a
    · exact ⟨none, readsClause_none_iff.1 h, rfl, rfl⟩
    · obtain ⟨⟨v, hv, hread⟩, hnegative⟩ := readsClause_is_iff.1 h
      exact ⟨some (.is v), ⟨hv, hnegative⟩, congrArg some hread, rfl⟩
    · obtain ⟨hpositive, v, hv, hread⟩ := readsClause_isNot_iff.1 h
      exact ⟨some (.isNot v), ⟨hpositive, hv⟩, rfl, congrArg some hread⟩

theorem exists_requiredClause_iff (element : Element) {clause : Clause α} :
    (∃ found, requiredClause members pair = .ok found ∧
        found.mapExcept (readValue element read) = .ok clause) ↔
      ReadsClause members pair read (some clause) := by
  have hsome : ∀ found : Clause Json,
      (some found).mapM (Clause.mapExcept (readValue element read)) = .ok (some clause) ↔
        found.mapExcept (readValue element read) = .ok clause := by
    intro found
    change Except.map some _ = _ ↔ _
    simp
  simp only [requiredClause_eq_ok_iff, ← exists_findClause_iff element, ← hsome]
  constructor
  · rintro ⟨found, h⟩
    exact ⟨some found, h⟩
  · rintro ⟨_ | found, h⟩
    · cases h.2
    · exact ⟨found, h⟩

end

section
variable {members : Json.Members}

theorem readCondition_eq_ok_iff {condition : Option Json.Members} :
    readCondition members = .ok condition ↔
      members.get? Element.condition.text = condition.map .object := by
  unfold readCondition
  split
  · rename_i hget
    rw [hget]
    cases condition <;> simp
  · rename_i found hget
    rw [hget]
    cases condition <;> simp
  · rename_i v hobject hget
    rw [hget]
    cases condition with
    | none => simp
    | some condition =>
      simp only [reduceCtorEq, Option.map_some, Option.some.injEq, false_iff]
      exact hobject condition

theorem readEffect_eq_ok_iff {effect : Effect} :
    readEffect members = .ok effect ↔
      members.get? Element.effect.text = some (.string effect.text) := by
  unfold readEffect
  cases members.get? Element.effect.text with
  | none => simp
  | some v =>
    rw [Option.some.injEq]
    exact Worded.ofJson_eq_ok_iff

theorem firstArnError?_eq_none_iff {resources : List String} :
    firstArnError? resources = none ↔ ∀ resource ∈ resources, IsResource resource := by
  unfold firstArnError?
  rw [List.findSome?_eq_none_iff]
  refine forall₂_congr fun resource _ => ?_
  unfold IsResource
  split_ifs with hstar
  · simp [hstar]
  · cases Arn.parse resource <;> simp [hstar]

theorem checkResources_eq_ok_iff {clause : Option (Clause ValueList)} :
    checkResources clause = .ok () ↔
      ∀ c ∈ clause, ∀ resource ∈ c.value.values, IsResource resource := by
  cases clause with
  | none => simp [checkResources]
  | some clause =>
    simp only [Option.mem_some_iff, forall_eq', ← firstArnError?_eq_none_iff]
    cases hfirst : firstArnError? clause.value.values <;> simp [checkResources, hfirst]

end

/-! ### Statements -/

section
variable {t : PolicyType} {members : Json.Members} {v : Json} {s : Statement}

/-- What the type of a policy asks of a statement. -/
structure Admitted (t : PolicyType) (s : Statement) : Prop where
  resource : t.resourceRequirement.Admits s.resource.isSome
  principal : t.principalRequirement.Admits s.principal.isSome
  resources : ∀ clause ∈ s.resource, ∀ resource ∈ clause.value.values, IsResource resource

/-- The members of an object hold the parts of a statement, and nothing else. -/
structure ReadFrom (members : Json.Members) (s : Statement) : Prop where
  names : ∀ name ∈ members.names, ∃ element : Element, element.text = name
  action : ReadsClause members .action ValueList.ofJson? (some s.action)
  resource : ReadsClause members .resource ValueList.ofJson? s.resource
  principal : ReadsClause members .principal Principal.ofJson? s.principal
  condition : members.get? Element.condition.text = s.condition.map .object
  effect : members.get? Element.effect.text = some (.string s.effect.text)

/-- Only one statement is read from an object. -/
theorem ReadFrom.unique {s' : Statement} (h : s.ReadFrom members) (h' : s'.ReadFrom members) :
    s = s' := by
  obtain ⟨effect, action, resource, principal, condition⟩ := s
  obtain ⟨effect', action', resource', principal', condition'⟩ := s'
  obtain rfl : effect = effect' :=
    Worded.text_injective (Json.string.inj (Option.some.inj (h.effect.symm.trans h'.effect)))
  obtain rfl : action = action' := Option.some.inj (h.action.unique h'.action)
  obtain rfl : resource = resource' := h.resource.unique h'.resource
  obtain rfl : principal = principal' := h.principal.unique h'.principal
  obtain rfl : condition = condition' :=
    Option.map_injective (fun _ _ => Json.object.inj) (h.condition.symm.trans h'.condition)
  rfl

theorem validate_object_eq_ok_iff :
    validate t (.object members) = .ok s ↔ s.ReadFrom members ∧ s.Admitted t := by
  unfold validate
  simp only [Except.bind_eq_ok_iff, Except.pure_def, Except.ok.injEq, checkedClause_eq_ok_iff,
    readCondition_eq_ok_iff, readEffect_eq_ok_iff]
  constructor
  · rintro ⟨⟨⟩, hnames, action, haction, resource, ⟨hresource, hneeded⟩, principal,
      ⟨hprincipal, hneeded'⟩, action', haction', resource', hresource', principal', hprincipal',
      condition, hcondition, effect, heffect, ⟨⟩, hresources, rfl⟩
    constructor
    · exact
        { names := Worded.checkNames_eq_ok_iff.1 hnames
          action := (exists_requiredClause_iff .action).1 ⟨action, haction, haction'⟩
          resource := (exists_findClause_iff .resource).1 ⟨resource, hresource, hresource'⟩
          principal := (exists_findClause_iff .principal).1 ⟨principal, hprincipal, hprincipal'⟩
          condition := hcondition
          effect := heffect }
    · exact
        { resource := isSome_of_mapM_readValue hresource' ▸ hneeded
          principal := isSome_of_mapM_readValue hprincipal' ▸ hneeded'
          resources := checkResources_eq_ok_iff.1 hresources }
  · rintro ⟨hread, hadmitted⟩
    -- what is found before it is read: the clauses with values still unread
    obtain ⟨action, haction, haction'⟩ := (exists_requiredClause_iff .action).2 hread.action
    obtain ⟨resource, hresource, hresource'⟩ := (exists_findClause_iff .resource).2 hread.resource
    obtain ⟨principal, hprincipal, hprincipal'⟩ :=
      (exists_findClause_iff .principal).2 hread.principal
    have hneeded := isSome_of_mapM_readValue hresource' ▸ hadmitted.resource
    have hneeded' := isSome_of_mapM_readValue hprincipal' ▸ hadmitted.principal
    exact ⟨(), Worded.checkNames_eq_ok_iff.2 hread.names, action, haction, resource,
      ⟨hresource, hneeded⟩, principal, ⟨hprincipal, hneeded'⟩, _, haction', _, hresource', _,
      hprincipal', _, hread.condition, _, hread.effect, (),
      checkResources_eq_ok_iff.2 hadmitted.resources, rfl⟩

/-- A statement is read from an object that holds its parts, if the type of the policy admits it. -/
theorem validate_eq_ok_iff :
    validate t v = .ok s ↔
      (∃ members, v = .object members ∧ s.ReadFrom members) ∧ s.Admitted t := by
  cases v with
  | object members =>
    rw [validate_object_eq_ok_iff]
    simp
  | null | bool _ | number _ | string _ | array _ => simp [validate]

end

end Statement

/-! ### Documents -/

namespace Document
variable {t : PolicyType} {v : Json} {d : Document}

theorem validateStatements_eq_ok_iff {index : Nat} {items : List Json}
    {statements : List Statement} :
    validateStatements t index items = .ok statements ↔
      items.map (Statement.validate t) = statements.map .ok := by
  induction items generalizing index statements with
  | nil =>
    rw [validateStatements, Except.ok.injEq, List.map_nil, eq_comm, @eq_comm _ [],
      List.map_eq_nil_iff]
  | cons item items ih =>
    rw [validateStatements, List.map_cons, @eq_comm _ (_ :: _), List.map_eq_cons_iff]
    cases hitem : Statement.validate t item with
    | error cause => simp
    | ok s =>
      simp only [Except.map_eq_ok_iff, ih, Except.ok.injEq]
      constructor
      · rintro ⟨rest, hrest, rfl⟩
        exact ⟨s, rest, rfl, rfl, hrest.symm⟩
      · rintro ⟨_, rest, rfl, rfl, hrest⟩
        exact ⟨rest, hrest.symm, rfl⟩

@[simp] theorem required_eq_ok_iff {members : Json.Members} {element : DocumentElement} :
    required members element = .ok v ↔ members.get? element.text = some v := by
  unfold required
  cases members.get? element.text <;> simp

theorem listed_eq_ok_iff {items : List Json} :
    listed v = .ok items ↔
      v = .array items ∨ ∃ members, v = .object members ∧ items = [.object members] := by
  cases v <;> simp [listed, eq_comm]

theorem canonical_of_listed {statement : Json} {items : List Json} (h : statement.Canonical)
    (hitems : listed statement = .ok items) : ∀ v ∈ items, v.Canonical := by
  rcases listed_eq_ok_iff.1 hitems with rfl | ⟨_, rfl, rfl⟩
  · exact fun v hv => Json.CanonicalItems.canonical_of_mem h hv
  · exact fun v hv => List.mem_singleton.1 hv ▸ h

/-- A document is read from an object with its version and the list of its statements. -/
theorem validate_eq_ok_iff :
    validate v t = .ok d ↔
      ∃ (members : Json.Members) (statement : Json) (items : List Json), v = .object members ∧
        (∀ name ∈ members.names, ∃ element : DocumentElement, element.text = name) ∧
        members.get? DocumentElement.version.text = some (.string d.version.text) ∧
        members.get? DocumentElement.statement.text = some statement ∧
        listed statement = .ok items ∧
        items.map (Statement.validate t) = d.statements.map .ok := by
  cases v with
  | object members =>
    unfold validate
    simp only [Except.bind_eq_ok_iff, Except.pure_def, Except.ok.injEq, required_eq_ok_iff,
      Worded.ofJson_eq_ok_iff, validateStatements_eq_ok_iff]
    constructor
    · rintro ⟨_, hversion, statement, hstatement, ⟨⟩, hnames, version, rfl, items, hitems,
        statements, hstatements, rfl⟩
      exact ⟨members, statement, items, rfl, Worded.checkNames_eq_ok_iff.1 hnames, hversion,
        hstatement, hitems, hstatements⟩
    · rintro ⟨_, statement, items, ⟨⟩, hnames, hversion, hstatement, hitems, hstatements⟩
      exact ⟨_, hversion, statement, hstatement, (), Worded.checkNames_eq_ok_iff.2 hnames, _, rfl,
        items, hitems, _, hstatements, rfl⟩
  | null | bool _ | number _ | string _ | array _ => simp [validate]

end Document

end AccessPolicy
