import AccessPolicy.Document.Writing
import AccessPolicy.Engine.Builder
import AccessPolicy.Proofs.Reading
import Mathlib.Data.List.Nodup

/-!
# Validating what was written

A document that was validated can be written as a value and validated again, and comes back as it
was.  This rests on the two halves of validation.  Whatever a statement is, the object it is written
as holds its parts (`Statement.readFrom_ofList_members`); that the type of the policy admits it does
not depend on how it was written.

Main statements: `Statement.validate_toJson_eq_ok_iff`, `Document.validate_toJson_eq_ok_iff`, and
for all engines that can be built `Engine.validate_toJson`.
-/

namespace AccessPolicy

/-! ### Members under words -/

namespace Json.Members
variable {α : Type} [Worded α] {value? : α → Option Json} {words : List α}

/-- The members for some words, as far as these have values. -/
def ofWords (value? : α → Option Json) (words : List α) : Json.Members :=
  words.filterMap fun a => (value? a).map (Worded.text a, ·)

@[simp] theorem mem_ofWords_iff {member : String × Json} :
    member ∈ ofWords value? words ↔
      ∃ a ∈ words, Worded.text a = member.1 ∧ value? a = some member.2 := by
  unfold ofWords
  rw [List.mem_filterMap]
  refine exists_congr fun a => and_congr_right fun _ => ?_
  rw [Option.map_eq_some_iff]
  constructor
  · rintro ⟨v, hv, rfl⟩
    exact ⟨rfl, hv⟩
  · rintro ⟨htext, hv⟩
    exact ⟨member.2, hv, Prod.ext htext rfl⟩

/-- All names are words. -/
theorem exists_text_of_mem_names_ofWords {name : String} (h : name ∈ (ofWords value? words).names) :
    ∃ a : α, Worded.text a = name := by
  obtain ⟨member, hmember, rfl⟩ := List.mem_map.1 h
  obtain ⟨a, _, htext, _⟩ := mem_ofWords_iff.1 hmember
  exact ⟨a, htext⟩

/-- Under the word for `a` stands its value. -/
theorem get?_ofWords {a : α} (ha : a ∈ words) :
    (ofWords value? words).get? (Worded.text a) = value? a := by
  cases hget : (ofWords value? words).get? (Worded.text a) with
  | some v =>
    -- whatever is found stands under the word for `a`, and only `a` has this word
    obtain ⟨b, _, htext, hv⟩ := mem_ofWords_iff.1 (mem_of_get?_eq_some hget)
    rw [← Worded.text_injective htext]
    exact hv.symm
  | none =>
    cases hv : value? a with
    | none => rfl
    | some v =>
      -- nothing is found, but the member with the value is there
      have hmember : (Worded.text a, v) ∈ ofWords value? words := mem_ofWords_iff.2 ⟨a, ha, rfl, hv⟩
      exact absurd (List.mem_map_of_mem hmember) (get?_eq_none_iff.1 hget)

/-- No name is repeated, as different words have different names. -/
theorem nodup_names_ofWords (h : words.Nodup) : (ofWords value? words).names.Nodup := by
  unfold names ofWords
  rw [List.map_filterMap]
  refine h.filterMap fun a b name ha hb => ?_
  rw [Option.map_map, Option.mem_def, Option.map_eq_some_iff] at ha hb
  obtain ⟨_, _, rfl⟩ := ha
  obtain ⟨_, _, htext⟩ := hb
  exact (Worded.text_injective htext).symm

end Json.Members

/-! ### Lists of values and principals -/

@[simp] theorem ValueList.ofJson?_toJson (list : ValueList) : ofJson? list.toJson = some list := by
  rw [ofJson?_eq_some_iff]
  unfold toJson
  split
  · rename_i value hvalue
    exact Or.inl ⟨value, rfl, hvalue⟩
  · exact Or.inr rfl

/-- The written identifiers are the members for the kinds. -/
theorem PrincipalIds.map_entries (ids : PrincipalIds) :
    (ids.entries.map fun (kind, list) => (kind.text, list.toJson)) =
      Json.Members.ofWords (fun kind => (ids.get? kind).map ValueList.toJson) Worded.all := by
  unfold entries Json.Members.ofWords
  rw [List.map_filterMap]
  simp only [Option.map_map]
  rfl

@[simp] theorem Principal.ofJson?_toJson (p : Principal) : ofJson? p.toJson = some p := by
  cases p with
  | anyone => rfl
  | named ids =>
    suffices hids : PrincipalIds.ofMembers?
        (ids.entries.map fun (kind, list) => (kind.text, list.toJson)) = some ids from
      congrArg (Option.map Principal.named) hids
    rw [PrincipalIds.ofMembers?_eq_some_iff, PrincipalIds.map_entries]
    constructor
    · intro member hmember
      obtain ⟨kind, _, htext, hvalue⟩ := Json.Members.mem_ofWords_iff.1 hmember
      obtain ⟨list, _, hlist⟩ := Option.map_eq_some_iff.1 hvalue
      exact ⟨⟨kind, htext⟩, list, hlist ▸ list.ofJson?_toJson⟩
    · intro kind
      refine Eq.trans ?_
        (congrArg (·.bind ValueList.ofJson?) (Json.Members.get?_ofWords (Worded.mem_all kind))).symm
      cases ids.get? kind with
      | none => rfl
      | some list => exact list.ofJson?_toJson.symm

/-! ### Statements -/

/-- A clause is read if what stands under its two names was written by what `read` undoes. -/
theorem ReadsClause.of_written {α : Type} {members : Json.Members} {pair : ElementPair}
    {read : Json → Option α} {write : α → Json} {clause : Option (Clause α)}
    (hread : ∀ a, read (write a) = some a)
    (hpositive : members.get? pair.positive.text = (clause.bind Clause.positive?).map write)
    (hnegative : members.get? pair.negative.text = (clause.bind Clause.negative?).map write) :
    ReadsClause members pair read clause := by
  have hwritten : ∀ a? : Option α, (a?.map write).map read = a?.map some := by
    intro a?
    cases a? with
    | none => rfl
    | some a => exact congrArg some (hread a)
  constructor
  · rw [hpositive, hwritten]
  · rw [hnegative, hwritten]

namespace Statement

/-- The elements in the order in which they are written. -/
def writingOrder : List Element :=
  [.effect, .principal, .notPrincipal, .action, .notAction, .resource, .notResource, .condition]

/-- What is written under an element. -/
def value? (s : Statement) : Element → Option Json
  | .effect => some (.string s.effect.text)
  | .action => s.action.positive?.map ValueList.toJson
  | .notAction => s.action.negative?.map ValueList.toJson
  | .resource => (s.resource.bind Clause.positive?).map ValueList.toJson
  | .notResource => (s.resource.bind Clause.negative?).map ValueList.toJson
  | .principal => (s.principal.bind Clause.positive?).map Principal.toJson
  | .notPrincipal => (s.principal.bind Clause.negative?).map Principal.toJson
  | .condition => s.condition.map .object

/-- The written members are those for the elements. -/
theorem members_eq_ofWords (s : Statement) :
    s.members = Json.Members.ofWords s.value? writingOrder := by
  obtain ⟨effect, action, resource, principal, condition⟩ := s
  rcases action with _ | _ <;> rcases resource with _ | _ | _ <;>
    rcases principal with _ | _ | _ <;> rcases condition with _ | _ <;> rfl

/-- Under the name of an element stands what is written there. -/
theorem get?_ofList_members (s : Statement) (element : Element) :
    (Json.Members.ofList s.members).get? element.text = s.value? element := by
  have helement : element ∈ writingOrder := by cases element <;> decide
  rw [members_eq_ofWords, Json.Members.get?_ofList (Json.Members.nodup_names_ofWords (by decide))]
  exact Json.Members.get?_ofWords helement

/-- The object that a statement is written as holds the parts of the statement. -/
theorem readFrom_ofList_members (s : Statement) : s.ReadFrom (Json.Members.ofList s.members) := by
  have hget := s.get?_ofList_members
  have hnames : ∀ name ∈ (Json.Members.ofList s.members).names,
      ∃ element : Element, element.text = name := by
    intro name hname
    have hwritten := Json.Members.mem_names_ofList hname
    rw [members_eq_ofWords] at hwritten
    exact Json.Members.exists_text_of_mem_names_ofWords hwritten
  exact
    { names := hnames
      action := .of_written ValueList.ofJson?_toJson (hget .action) (hget .notAction)
      resource := .of_written ValueList.ofJson?_toJson (hget .resource) (hget .notResource)
      principal := .of_written Principal.ofJson?_toJson (hget .principal) (hget .notPrincipal)
      condition := hget .condition
      effect := hget .effect }

/-- A statement is read back from its value exactly if it is admitted. -/
theorem validate_toJson_eq_ok_iff {t : PolicyType} {s : Statement} :
    validate t s.toJson = .ok s ↔ s.Admitted t :=
  validate_object_eq_ok_iff.trans (and_iff_right s.readFrom_ofList_members)

end Statement

/-! ### Documents -/

namespace Document
variable {t : PolicyType} {v : Json} {d : Document}

/-- What is written under an element, with statements in a given form. -/
def value (write : Statement → Json) (d : Document) : DocumentElement → Json
  | .version => .string d.version.text
  | .statement => .array (d.statements.map write)

/-- Under the name of an element stands what is written there. -/
theorem get?_ofList_members (write : Statement → Json) (element : DocumentElement) :
    (Json.Members.ofList (d.members write)).get? element.text = some (d.value write element) := by
  have hnodup : (d.members write).names.Nodup := by
    change [DocumentElement.version.text, DocumentElement.statement.text].Nodup
    decide
  rw [Json.Members.get?_ofList hnodup]
  cases element <;> rfl

/-- All that is written is under the name of an element. -/
theorem exists_text_of_mem_names {write : Statement → Json} {name : String}
    (h : name ∈ (Json.Members.ofList (d.members write)).names) :
    ∃ element : DocumentElement, element.text = name := by
  rcases List.mem_pair.1 (Json.Members.mem_names_ofList h) with rfl | rfl
  · exact ⟨.version, rfl⟩
  · exact ⟨.statement, rfl⟩

/-- The statements of a document that was validated are admitted. -/
theorem admitted_of_validate (h : validate v t = .ok d) : ∀ s ∈ d.statements, s.Admitted t := by
  obtain ⟨_, _, items, _, _, _, _, _, hitems⟩ := validate_eq_ok_iff.1 h
  intro s hs
  have hmem : .ok s ∈ items.map (Statement.validate t) := hitems ▸ List.mem_map_of_mem hs
  obtain ⟨item, _, hitem⟩ := List.mem_map.1 hmem
  exact (Statement.validate_eq_ok_iff.1 hitem).2

/-- A document is read back from its value exactly if all its statements are admitted. -/
theorem validate_toJson_eq_ok_iff :
    validate d.toJson t = .ok d ↔ ∀ s ∈ d.statements, s.Admitted t := by
  refine ⟨admitted_of_validate, fun h => ?_⟩
  have hstatements : (d.statements.map Statement.toJson).map (Statement.validate t) =
      d.statements.map .ok := by
    rw [List.map_map]
    exact List.map_congr_left fun s hs => Statement.validate_toJson_eq_ok_iff.2 (h s hs)
  rw [validate_eq_ok_iff]
  exact ⟨_, _, _, rfl, fun _ => exists_text_of_mem_names, get?_ofList_members _ .version,
    get?_ofList_members _ .statement, rfl, hstatements⟩

end Document

/-! ### Engines -/

namespace Engine

/-- The engines that there are: for a source with settings, and for a value of some type. -/
inductive Built : Engine → Prop
  | build {source : PolicySource} {settings : List Setting} {e : Engine}
    (h : ((Builder.of source).applyAll settings).build = .ok e) : Built e
  | ofJson {v : Json} {t : PolicyType} {e : Engine} (h : Engine.ofJson v t = .ok e) : Built e

end Engine

/-- The document of an engine was validated for the type that the engine keeps. -/
theorem Builder.exists_validate_of_build {b : Builder} {e : Engine} (h : b.build = .ok e) :
    ∃ v, Document.validate v e.policyType = .ok e.document := by
  unfold build at h
  split at h
  · cases h
  · rename_i v _
    split at h
    · cases h
    · rename_i document hdocument
      obtain rfl := Except.ok.inj h
      exact ⟨v, hdocument⟩

theorem Engine.Built.exists_validate {e : Engine} (h : e.Built) :
    ∃ v, Document.validate v e.policyType = .ok e.document := by
  cases h with
  | build h => exact Builder.exists_validate_of_build h
  | ofJson h => exact Builder.exists_validate_of_build h

/-- **What was validated can be written and validated again, and is then the same.** -/
theorem Engine.validate_toJson :
    (∀ e : Engine, e.Built → Document.validate e.document.toJson e.policyType = .ok e.document) ∧
      ∀ v t d, Document.validate v t = .ok d → Document.validate d.toJson t = .ok d := by
  have hagain : ∀ v t d, Document.validate v t = .ok d → Document.validate d.toJson t = .ok d := by
    intro v t d hd
    exact Document.validate_toJson_eq_ok_iff.2 (Document.admitted_of_validate hd)
  refine ⟨fun e he => ?_, hagain⟩
  obtain ⟨v, hv⟩ := he.exists_validate
  exact hagain v e.policyType e.document hv

/-! ### An audit policy -/

/-- A policy that is not written as it is kept: its only statement stands outside of an array, and
its only resource in one. -/
def auditPolicy : Json :=
  .object [("Version", .string "2012-10-17"),
    ("Statement", .object
      [("Principal", .string "*"),
        ("NotAction", .array [.string "s3:DeleteBucket", .string "s3:DeleteObject"]),
        ("Resource", .array [.string "*"]),
        ("Effect", .string "Allow"),
        ("Condition", .object [("Bool", .object [("aws:SecureTransport", .bool true)])])])]

/-- The document that the audit policy is. -/
def auditDocument : Document where
  version := .v2012
  statements :=
    [{ effect := .allow
       action := .isNot ⟨["s3:DeleteBucket", "s3:DeleteObject"], by decide, by decide⟩
       resource := some (.is ⟨["*"], by decide, by decide⟩)
       principal := some (.is .anyone)
       condition := some [("Bool", .object [("aws:SecureTransport", .bool true)])] }]

theorem validate_auditPolicy : Document.validate auditPolicy .resource = .ok auditDocument := by
  decide

theorem Engine.auditPolicy_validate_toJson :
    ∃ e, Engine.ofJson auditPolicy .resource = .ok e ∧
      Document.validate e.document.toJson e.policyType = .ok e.document ∧
      Document.validate auditPolicy .resource = .ok auditDocument ∧
      Document.validate auditDocument.toJson .resource = .ok auditDocument := by
  let e : Engine :=
    { document := auditDocument, policyType := .resource, catalog := .builtin, matcher := .glob,
      default := .denied }
  have he : Engine.ofJson auditPolicy .resource = .ok e := by
    simp only [ofJson, Builder.build, Builder.of, Builder.apply, Builder.read,
      validate_auditPolicy, e]
  exact ⟨e, he, validate_toJson.1 e (.ofJson he), validate_auditPolicy,
    validate_toJson.2 auditPolicy .resource auditDocument validate_auditPolicy⟩

end AccessPolicy
