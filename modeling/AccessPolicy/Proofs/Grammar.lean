import AccessPolicy.Proofs.Reading
import Mathlib.Data.List.Basic

/-!
# The grammar of policies

`InGrammar t v` says which values are policy documents of type `t`, as a reader of policies would
put it: which names an object has, how many of a pair of names, and of what form the values are.
It mentions neither errors nor the order in which validation looks at things.

Main statement: `exists_validate_eq_ok_iff`, validation succeeds on the grammar and on nothing else.
It is put together from the same for lists of texts (`Json.isTexts_iff`), principals
(`isPrincipal_iff`), the two names of a pair (`ReadsClause.howMany_eq`, `exists_readsClause`) and
statements (`exists_validate_object_iff`).
-/

namespace AccessPolicy

/-! ### The grammar -/

/-- How many of some names there are among the members. -/
def Json.Members.howMany (members : Json.Members) (names : List String) : Nat :=
  names.countP fun name => name ∈ members.names

/-- A non-empty string or a non-empty array of them, all of which satisfy a condition. -/
def Json.IsTexts (condition : String → Prop) : Json → Prop
  | .string s => s ≠ "" ∧ condition s
  | .array items => items ≠ [] ∧ ∀ v ∈ items, ∃ s, v = .string s ∧ s ≠ "" ∧ condition s
  | _ => False

/-- `*`, or a non-empty object with lists of identifiers under names of kinds. -/
def IsPrincipal : Json → Prop
  | .string s => s = "*"
  | .object members => members ≠ [] ∧ ∀ m ∈ members,
      m.1 ∈ ["AWS", "Service", "Federated", "CanonicalUser"] ∧ m.2.IsTexts fun _ => True
  | _ => False

/-- How many of `Resource` and `NotResource` the statements of a policy have. -/
def PolicyType.ResourceCount : PolicyType → Nat → Prop
  | .identity, n => n = 1
  | .resource, n => n ≤ 1
  | .trust, n => n = 0

/-- How many of `Principal` and `NotPrincipal` the statements of a policy have. -/
def PolicyType.PrincipalCount : PolicyType → Nat → Prop
  | .identity, n => n = 0
  | .resource, n | .trust, n => n = 1

/-- The members of a statement. -/
structure StatementGrammar (t : PolicyType) (members : Json.Members) : Prop where
  names : ∀ name ∈ members.names, name ∈ ["Effect", "Action", "NotAction", "Resource",
    "NotResource", "Principal", "NotPrincipal", "Condition"]
  effect : members.get? "Effect" = some (.string "Allow") ∨
    members.get? "Effect" = some (.string "Deny")
  action : members.howMany ["Action", "NotAction"] = 1
  resource : t.ResourceCount (members.howMany ["Resource", "NotResource"])
  principal : t.PrincipalCount (members.howMany ["Principal", "NotPrincipal"])
  actions : ∀ name ∈ ["Action", "NotAction"], ∀ v, members.get? name = some v →
    v.IsTexts fun _ => True
  resources : ∀ name ∈ ["Resource", "NotResource"], ∀ v, members.get? name = some v →
    v.IsTexts fun s => s = "*" ∨ ∃ arn, Arn.parse s = .ok arn
  principals : ∀ name ∈ ["Principal", "NotPrincipal"], ∀ v, members.get? name = some v →
    IsPrincipal v
  condition : ∀ v, members.get? "Condition" = some v → ∃ condition, v = .object condition

/-- The members of a document. -/
structure DocumentGrammar (t : PolicyType) (members : Json.Members) : Prop where
  names : ∀ name, name ∈ members.names ↔ name = "Version" ∨ name = "Statement"
  version : members.get? "Version" = some (.string "2008-10-17") ∨
    members.get? "Version" = some (.string "2012-10-17")
  statements : ∃ statements : List Json.Members,
    (members.get? "Statement" = some (.array (statements.map .object)) ∨
      ∃ s, statements = [s] ∧ members.get? "Statement" = some (.object s)) ∧
    ∀ s ∈ statements, StatementGrammar t s

/-- The policy documents of a type. -/
def InGrammar (t : PolicyType) : Json → Prop
  | .object members => DocumentGrammar t members
  | _ => False

/-! ### Lists of texts and principals -/

theorem Json.isTexts_iff {condition : String → Prop} {v : Json} :
    v.IsTexts condition ↔
      ∃ list, ValueList.ofJson? v = some list ∧ ∀ s ∈ list.values, condition s := by
  simp only [ValueList.ofJson?_eq_some_iff]
  constructor
  · intro h
    cases v with
    | string s =>
      exact ⟨⟨[s], by simp, by simpa using h.1⟩, Or.inl ⟨s, rfl, rfl⟩, by simpa using h.2⟩
    | array items =>
      obtain ⟨hne, hitems⟩ := h
      obtain ⟨values, rfl, hvalues⟩ := exists_map_string hitems
      refine ⟨⟨values, by simpa using hne, fun s hs => (hvalues s hs).1⟩, Or.inr rfl, ?_⟩
      exact fun s hs => (hvalues s hs).2
    | null | bool _ | number _ | object _ => exact h.elim
  · rintro ⟨list, ⟨s, rfl, hvalues⟩ | rfl, hcondition⟩
    · have hs : s ∈ list.values := hvalues ▸ List.mem_singleton_self s
      exact ⟨list.ne_empty s hs, hcondition s hs⟩
    · refine ⟨by simpa using list.values_ne_nil, ?_⟩
      intro v hv
      obtain ⟨s, hs, rfl⟩ := List.mem_map.1 hv
      exact ⟨s, rfl, list.ne_empty s hs, hcondition s hs⟩

theorem PrincipalKind.exists_text_iff {name : String} :
    (∃ kind : PrincipalKind, kind.text = name) ↔
      name ∈ ["AWS", "Service", "Federated", "CanonicalUser"] := by
  have hwords : (Worded.all.map PrincipalKind.text).Perm
      ["AWS", "Service", "Federated", "CanonicalUser"] := by decide
  exact Worded.exists_text_iff.trans hwords.mem_iff

/-- Members with known kinds and lists of texts hold identifiers, unless there are none. -/
theorem PrincipalIds.exists_ofMembers?_iff {members : Json.Members} :
    (∃ ids, ofMembers? members = some ids) ↔
      members ≠ [] ∧ ∀ m ∈ members,
        m.1 ∈ ["AWS", "Service", "Federated", "CanonicalUser"] ∧ m.2.IsTexts fun _ => True := by
  have hmember : ∀ m : String × Json,
      (m.1 ∈ ["AWS", "Service", "Federated", "CanonicalUser"] ∧ m.2.IsTexts fun _ => True) ↔
        (∃ kind : PrincipalKind, kind.text = m.1) ∧
          ∃ list, ValueList.ofJson? m.2 = some list := by
    intro m
    rw [PrincipalKind.exists_text_iff, Json.isTexts_iff]
    simp
  simp only [hmember, ofMembers?_eq_some_iff]
  constructor
  · rintro ⟨ids, hall, hget⟩
    refine ⟨?_, hall⟩
    rintro rfl
    obtain ⟨kind, hkind⟩ := ids.nonempty
    rw [hget] at hkind
    cases hkind
  · -- the first member is of a kind that has identifiers
    rintro ⟨hne, hall⟩
    obtain ⟨⟨name, v⟩, rest, rfl⟩ := List.exists_cons_of_ne_nil hne
    obtain ⟨⟨kind, hkind⟩, list, hlist⟩ := hall (name, v) List.mem_cons_self
    have hfound : Json.Members.get? ((name, v) :: rest) kind.text = some v := by
      simp [hkind]
    refine ⟨⟨fun kind => (Json.Members.get? ((name, v) :: rest) kind.text).bind ValueList.ofJson?,
      kind, ?_⟩, hall, fun _ => rfl⟩
    rw [hfound, Option.bind_some, hlist]
    rfl

theorem isPrincipal_iff {v : Json} : IsPrincipal v ↔ ∃ p, Principal.ofJson? v = some p := by
  cases v with
  | string s => simp [IsPrincipal, Principal.ofJson?]
  | object members =>
    refine PrincipalIds.exists_ofMembers?_iff.symm.trans ?_
    simp only [Principal.ofJson?, Option.map_eq_some_iff]
    constructor
    · rintro ⟨ids, h⟩
      exact ⟨.named ids, ids, h, rfl⟩
    · rintro ⟨_, ids, h, _⟩
      exact ⟨ids, h⟩
  | null | bool _ | number _ | array _ => simp [IsPrincipal, Principal.ofJson?]

/-! ### The two names of a pair -/

section
variable {α : Type} {members : Json.Members} {pair : ElementPair} {read : Json → Option α}

theorem Json.Members.howMany_pair (members : Json.Members) (first second : String) :
    members.howMany [first, second] =
      (members.get? first).isSome.toNat + (members.get? second).isSome.toNat := by
  have hdecide : ∀ name, decide (name ∈ members.names) = (members.get? name).isSome := by
    intro name
    rw [Bool.eq_iff_iff, decide_eq_true_iff, isSome_get?_iff]
  unfold howMany
  simp only [hdecide, List.countP_cons, List.countP_nil]
  cases (members.get? first).isSome <;> cases (members.get? second).isSome <;> rfl

/-- There is one of the names of a pair if a clause is read, and none otherwise. -/
theorem ReadsClause.howMany_eq {clause : Option (Clause α)}
    (h : ReadsClause members pair read clause) :
    members.howMany [pair.positive.text, pair.negative.text] = clause.isSome.toNat := by
  rw [Json.Members.howMany_pair]
  rcases clause with _ | a | a
  · obtain ⟨hpositive, hnegative⟩ := readsClause_none_iff.1 h
    rw [hpositive, hnegative]
    rfl
  · obtain ⟨⟨v, hv, _⟩, hnegative⟩ := readsClause_is_iff.1 h
    rw [hv, hnegative]
    rfl
  · obtain ⟨hpositive, v, hv, _⟩ := readsClause_isNot_iff.1 h
    rw [hpositive, hv]
    rfl

/-- What stands under one of the names is read as the value of the clause. -/
theorem ReadsClause.exists_value {clause : Option (Clause α)}
    (h : ReadsClause members pair read clause) {name : String} {v : Json}
    (hname : name ∈ [pair.positive.text, pair.negative.text])
    (hv : members.get? name = some v) : ∃ c ∈ clause, read v = some c.value := by
  rcases List.mem_pair.1 hname with rfl | rfl
  · have hread : some (read v) = (clause.bind Clause.positive?).map some := by
      rw [← h.1, hv, Option.map_some]
    rcases clause with _ | a | a
    · cases hread
    · exact ⟨_, rfl, Option.some.inj hread⟩
    · cases hread
  · have hread : some (read v) = (clause.bind Clause.negative?).map some := by
      rw [← h.2, hv, Option.map_some]
    rcases clause with _ | a | a
    · cases hread
    · cases hread
    · exact ⟨_, rfl, Option.some.inj hread⟩

/-- The value of a clause stands under one of the names. -/
theorem ReadsClause.exists_member {clause : Option (Clause α)}
    (h : ReadsClause members pair read clause) {c : Clause α} (hc : c ∈ clause) :
    ∃ name ∈ [pair.positive.text, pair.negative.text], ∃ v,
      members.get? name = some v ∧ read v = some c.value := by
  obtain rfl := hc
  cases c with
  | is a =>
    obtain ⟨⟨v, hv, hread⟩, _⟩ := readsClause_is_iff.1 h
    exact ⟨_, List.mem_cons_self, v, hv, hread⟩
  | isNot a =>
    obtain ⟨_, v, hv, hread⟩ := readsClause_isNot_iff.1 h
    exact ⟨_, List.mem_cons_of_mem _ List.mem_cons_self, v, hv, hread⟩

/-- At most one of the names with a value that can be read is all that a clause needs. -/
theorem exists_readsClause (pair : ElementPair)
    (hmany : members.howMany [pair.positive.text, pair.negative.text] ≤ 1)
    (hread : ∀ name ∈ [pair.positive.text, pair.negative.text], ∀ v, members.get? name = some v →
      ∃ a, read v = some a) :
    ∃ clause, ReadsClause members pair read clause := by
  rw [Json.Members.howMany_pair] at hmany
  cases hpositive : members.get? pair.positive.text with
  | none =>
    cases hnegative : members.get? pair.negative.text with
    | none => exact ⟨none, readsClause_none_iff.2 ⟨hpositive, hnegative⟩⟩
    | some v =>
      obtain ⟨a, ha⟩ := hread _ (by simp) v hnegative
      exact ⟨some (.isNot a), readsClause_isNot_iff.2 ⟨hpositive, v, hnegative, ha⟩⟩
  | some v =>
    have hnegative : members.get? pair.negative.text = none := by
      rw [hpositive] at hmany
      cases hnegative : members.get? pair.negative.text with
      | none => rfl
      | some w =>
        -- both names are there, which makes two
        rw [hnegative] at hmany
        simp at hmany
    obtain ⟨a, ha⟩ := hread _ (by simp) v hpositive
    exact ⟨some (.is a), readsClause_is_iff.2 ⟨⟨v, hpositive, ha⟩, hnegative⟩⟩

end

/-! ### Statements and documents -/

theorem Element.exists_text_iff {name : String} :
    (∃ element : Element, element.text = name) ↔
      name ∈ ["Effect", "Action", "NotAction", "Resource", "NotResource", "Principal",
        "NotPrincipal", "Condition"] := by
  have hwords : (Worded.all.map Element.text).Perm ["Effect", "Action", "NotAction", "Resource",
      "NotResource", "Principal", "NotPrincipal", "Condition"] := by decide
  exact Worded.exists_text_iff.trans hwords.mem_iff

theorem PolicyType.admits_resource_iff {t : PolicyType} {present : Bool} :
    t.resourceRequirement.Admits present ↔ t.ResourceCount present.toNat := by
  cases t <;> cases present <;> simp [resourceRequirement, Requirement.Admits, ResourceCount]

theorem PolicyType.admits_principal_iff {t : PolicyType} {present : Bool} :
    t.principalRequirement.Admits present ↔ t.PrincipalCount present.toNat := by
  cases t <;> cases present <;> simp [principalRequirement, Requirement.Admits, PrincipalCount]

section
variable {t : PolicyType} {members : Json.Members}

theorem StatementGrammar.resource_le (h : StatementGrammar t members) :
    members.howMany ["Resource", "NotResource"] ≤ 1 := by
  have hresource := h.resource
  cases t with
  | identity => exact Nat.le_of_eq hresource
  | resource => exact hresource
  | trust => exact hresource ▸ Nat.zero_le 1

theorem StatementGrammar.principal_le (h : StatementGrammar t members) :
    members.howMany ["Principal", "NotPrincipal"] ≤ 1 := by
  have hprincipal := h.principal
  cases t with
  | identity => exact hprincipal ▸ Nat.zero_le 1
  | resource | trust => exact Nat.le_of_eq hprincipal

/-- The parts of a statement in the grammar can all be read. -/
theorem StatementGrammar.exists_readFrom (h : StatementGrammar t members) :
    ∃ s : Statement, s.ReadFrom members := by
  have htexts : ∀ {names : List String} {condition : String → Prop},
      (∀ name ∈ names, ∀ v, members.get? name = some v → v.IsTexts condition) →
        ∀ name ∈ names, ∀ v, members.get? name = some v →
          ∃ list, ValueList.ofJson? v = some list := by
    intro names condition hnames name hname v hv
    obtain ⟨list, hlist, _⟩ := Json.isTexts_iff.1 (hnames name hname v hv)
    exact ⟨list, hlist⟩
  obtain ⟨action, haction⟩ := exists_readsClause .action (Nat.le_of_eq h.action) (htexts h.actions)
  obtain ⟨resource, hresource⟩ :=
    exists_readsClause .resource h.resource_le (htexts h.resources)
  obtain ⟨principal, hprincipal⟩ := exists_readsClause .principal h.principal_le
    fun name hname v hv => isPrincipal_iff.1 (h.principals name hname v hv)
  obtain ⟨condition, hcondition⟩ :
      ∃ condition : Option Json.Members, members.get? "Condition" = condition.map .object := by
    cases hget : members.get? "Condition" with
    | none => exact ⟨none, rfl⟩
    | some v =>
      obtain ⟨condition, rfl⟩ := h.condition v hget
      exact ⟨some condition, rfl⟩
  obtain ⟨effect, heffect⟩ :
      ∃ effect : Effect, members.get? "Effect" = some (.string effect.text) := by
    rcases h.effect with heffect | heffect
    · exact ⟨.allow, heffect⟩
    · exact ⟨.deny, heffect⟩
  -- there is an action clause, as one of its names is there
  cases action with
  | none => exact absurd (haction.howMany_eq.symm.trans h.action) (by simp)
  | some action =>
    exact ⟨⟨effect, action, resource, principal, condition⟩,
      { names := fun name hname => Element.exists_text_iff.2 (h.names name hname)
        action := haction
        resource := hresource
        principal := hprincipal
        condition := hcondition
        effect := heffect }⟩

/-- What the type of a policy asks of a statement can be seen from the members. -/
theorem StatementGrammar.admitted (h : StatementGrammar t members) {s : Statement}
    (hread : s.ReadFrom members) : s.Admitted t where
  resource := PolicyType.admits_resource_iff.2 (hread.resource.howMany_eq ▸ h.resource)
  principal := PolicyType.admits_principal_iff.2 (hread.principal.howMany_eq ▸ h.principal)
  resources clause hclause := by
    obtain ⟨name, hname, v, hv, hlist⟩ := hread.resource.exists_member hclause
    obtain ⟨list, hlist', hresources⟩ := Json.isTexts_iff.1 (h.resources name hname v hv)
    rw [hlist] at hlist'
    obtain rfl := Option.some.inj hlist'
    exact hresources

/-- Members from which an admitted statement is read are in the grammar. -/
theorem Statement.ReadFrom.grammar {s : Statement} (h : s.ReadFrom members)
    (hadmitted : s.Admitted t) : StatementGrammar t members where
  names name hname := Element.exists_text_iff.1 (h.names name hname)
  effect := by
    have heffect := h.effect
    cases hs : s.effect with
    | allow =>
      rw [hs] at heffect
      exact Or.inl heffect
    | deny =>
      rw [hs] at heffect
      exact Or.inr heffect
  action := h.action.howMany_eq
  resource := h.resource.howMany_eq ▸ PolicyType.admits_resource_iff.1 hadmitted.resource
  principal := h.principal.howMany_eq ▸ PolicyType.admits_principal_iff.1 hadmitted.principal
  actions name hname v hv := by
    obtain ⟨clause, _, hlist⟩ := h.action.exists_value hname hv
    exact Json.isTexts_iff.2 ⟨clause.value, hlist, fun _ _ => trivial⟩
  resources name hname v hv := by
    obtain ⟨clause, hclause, hlist⟩ := h.resource.exists_value hname hv
    exact Json.isTexts_iff.2 ⟨clause.value, hlist, hadmitted.resources clause hclause⟩
  principals name hname v hv := by
    obtain ⟨clause, _, hp⟩ := h.principal.exists_value hname hv
    exact isPrincipal_iff.2 ⟨clause.value, hp⟩
  condition v hv := by
    obtain ⟨condition, _, hobject⟩ := Option.map_eq_some_iff.1 (h.condition.symm.trans hv)
    exact ⟨condition, hobject.symm⟩

/-- Statements can be read from the members in the grammar and from no others. -/
theorem exists_validate_object_iff :
    (∃ s, Statement.validate t (.object members) = .ok s) ↔ StatementGrammar t members := by
  simp only [Statement.validate_object_eq_ok_iff]
  constructor
  · rintro ⟨s, hread, hadmitted⟩
    exact hread.grammar hadmitted
  · intro h
    obtain ⟨s, hread⟩ := h.exists_readFrom
    exact ⟨s, hread, h.admitted hread⟩

/-- The items of a list can all be read as statements if they are objects in the grammar. -/
theorem exists_map_validate_iff {items : List Json} :
    (∃ statements : List Statement, items.map (Statement.validate t) = statements.map .ok) ↔
      ∃ objects : List Json.Members,
        items = objects.map .object ∧ ∀ s ∈ objects, StatementGrammar t s := by
  induction items with
  | nil => exact ⟨fun _ => ⟨[], rfl, by simp⟩, fun _ => ⟨[], rfl⟩⟩
  | cons item items ih =>
    constructor
    · rintro ⟨statements, h⟩
      rw [List.map_cons, eq_comm, List.map_eq_cons_iff] at h
      obtain ⟨s, rest, rfl, hs, hrest⟩ := h
      obtain ⟨⟨members, rfl, _⟩, _⟩ := Statement.validate_eq_ok_iff.1 hs.symm
      obtain ⟨objects, rfl, hobjects⟩ := ih.1 ⟨rest, hrest.symm⟩
      refine ⟨members :: objects, rfl, List.forall_mem_cons.2 ⟨?_, hobjects⟩⟩
      exact exists_validate_object_iff.1 ⟨s, hs.symm⟩
    · rintro ⟨objects, h, hobjects⟩
      rw [eq_comm, List.map_eq_cons_iff] at h
      obtain ⟨members, rest, rfl, rfl, rfl⟩ := h
      rw [List.forall_mem_cons] at hobjects
      obtain ⟨s, hs⟩ := exists_validate_object_iff.2 hobjects.1
      obtain ⟨statements, hstatements⟩ := ih.2 ⟨rest, rfl, hobjects.2⟩
      exact ⟨s :: statements, by rw [List.map_cons, List.map_cons, hs, hstatements]⟩

theorem DocumentElement.exists_text_iff {name : String} :
    (∃ element : DocumentElement, element.text = name) ↔
      name = "Version" ∨ name = "Statement" :=
  Worded.exists_text_iff.trans List.mem_pair

end

/-- **Validation accepts the grammar and nothing else.** -/
theorem exists_validate_eq_ok_iff (v : Json) (t : PolicyType) :
    (∃ d, Document.validate v t = .ok d) ↔ InGrammar t v := by
  simp only [Document.validate_eq_ok_iff, DocumentElement.exists_text_iff,
    Document.listed_eq_ok_iff]
  constructor
  · rintro ⟨d, members, statement, items, rfl, hnames, hversion, hstatement, hlisted, hitems⟩
    obtain ⟨objects, rfl, hobjects⟩ := exists_map_validate_iff.1 ⟨d.statements, hitems⟩
    refine ⟨fun name => ⟨hnames name, ?_⟩, ?_, objects, ?_, hobjects⟩
    -- both names are there, as something is found under them
    · rintro (rfl | rfl)
      · exact Json.Members.isSome_get?_iff.1 (Option.isSome_of_mem hversion)
      · exact Json.Members.isSome_get?_iff.1 (Option.isSome_of_mem hstatement)
    · cases hv : d.version with
      | v2008 =>
        rw [hv] at hversion
        exact Or.inl hversion
      | v2012 =>
        rw [hv] at hversion
        exact Or.inr hversion
    · rcases hlisted with rfl | ⟨s, rfl, hs⟩
      · exact Or.inl hstatement
      · obtain ⟨s', rfl, hs'⟩ := List.map_eq_singleton_iff.1 hs
        obtain rfl := Json.object.inj hs'
        exact Or.inr ⟨s', rfl, hstatement⟩
  · intro h
    cases v with
    | object members =>
      obtain ⟨hnames, hversion, objects, hstatement, hobjects⟩ := h
      obtain ⟨statements, hitems⟩ := exists_map_validate_iff.2 ⟨objects, rfl, hobjects⟩
      obtain ⟨version, hversion⟩ :
          ∃ version : Version,
            Json.Members.get? members "Version" = some (.string version.text) := by
        rcases hversion with hversion | hversion
        · exact ⟨.v2008, hversion⟩
        · exact ⟨.v2012, hversion⟩
      refine ⟨⟨version, statements⟩, members, ?_⟩
      rcases hstatement with hstatement | ⟨s, rfl, hstatement⟩
      · exact ⟨_, _, rfl, fun name => (hnames name).1, hversion, hstatement, Or.inl rfl, hitems⟩
      · exact ⟨_, _, rfl, fun name => (hnames name).1, hversion, hstatement,
          Or.inr ⟨s, rfl, rfl⟩, hitems⟩
    | null | bool _ | number _ | string _ | array _ => exact h.elim

end AccessPolicy
