import AccessPolicy.Proofs.Reading
import Mathlib.Data.List.Forall2

/-!
# One value under several types

The type of a policy has a part in validation in one place only, where a statement is admitted or
not.  The document that is read from a value is the same for every type (`Document.ReadFrom`), and a
type takes it as it is if it admits all its statements (`Document.validate_eq_ok_iff_readFrom`).  So
two types are compared by comparing what they admit:

* `Statement.admitted_trust_iff`: what a trust policy admits is what a resource policy admits, as
  far as it has no resource clause.
* `Statement.Admitted.not_identity`: what an identity policy admits no other policy does, as the
  others need the principals that it must not have.

Main statement: `Document.validate_types`.
-/

namespace AccessPolicy

/-! ### What is read under every type -/

/-- A statement is read from a value. -/
def Statement.IsReadFrom (v : Json) (s : Statement) : Prop :=
  ∃ members, v = .object members ∧ s.ReadFrom members

/-- No two statements are read from one value. -/
theorem Statement.rightUnique_isReadFrom : Relator.RightUnique Statement.IsReadFrom := by
  rintro v s s' ⟨members, rfl, h⟩ ⟨members', hv, h'⟩
  obtain rfl := Json.object.inj hv
  exact h.unique h'

namespace Document
variable {t t' : PolicyType} {v : Json} {d d' : Document} {members : Json.Members}

/-- The members of an object hold the version and the statements of a document, and nothing else. -/
structure ReadFrom (members : Json.Members) (d : Document) : Prop where
  names : ∀ name ∈ members.names, ∃ element : DocumentElement, element.text = name
  version : members.get? DocumentElement.version.text = some (.string d.version.text)
  statements : ∃ statement items, members.get? DocumentElement.statement.text = some statement ∧
    listed statement = .ok items ∧ List.Forall₂ Statement.IsReadFrom items d.statements

/-- Only one document is read from an object. -/
theorem ReadFrom.unique (h : d.ReadFrom members) (h' : d'.ReadFrom members) : d = d' := by
  obtain ⟨version, statements⟩ := d
  obtain ⟨version', statements'⟩ := d'
  have hversion : version = version' :=
    Worded.text_injective (Json.string.inj (Option.some.inj (h.version.symm.trans h'.version)))
  have hstatements : statements = statements' := by
    obtain ⟨statement, items, hget, hlisted, hread⟩ := h.statements
    obtain ⟨statement', items', hget', hlisted', hread'⟩ := h'.statements
    obtain rfl := Option.some.inj (hget.symm.trans hget')
    obtain rfl := Except.ok.inj (hlisted.symm.trans hlisted')
    exact Statement.rightUnique_isReadFrom.forall₂ hread hread'
  rw [hversion, hstatements]

/-- The items of a list give these statements if they are read from them and admitted. -/
theorem map_validate_eq_map_ok_iff {items : List Json} {statements : List Statement} :
    items.map (Statement.validate t) = statements.map .ok ↔
      List.Forall₂ Statement.IsReadFrom items statements ∧ ∀ s ∈ statements, s.Admitted t := by
  induction items generalizing statements with
  | nil => cases statements <;> simp
  | cons item items ih =>
    cases statements with
    | nil => simp
    | cons s statements =>
      have hs : Statement.validate t item = .ok s ↔ Statement.IsReadFrom item s ∧ s.Admitted t :=
        Statement.validate_eq_ok_iff
      rw [List.map_cons, List.map_cons, List.cons.injEq, ih, hs, List.forall₂_cons,
        List.forall_mem_cons]
      exact and_and_and_comm

theorem validate_eq_ok_iff_readFrom :
    validate v t = .ok d ↔
      (∃ members, v = .object members ∧ d.ReadFrom members) ∧ ∀ s ∈ d.statements, s.Admitted t := by
  rw [validate_eq_ok_iff]
  simp only [map_validate_eq_map_ok_iff]
  constructor
  · rintro ⟨members, statement, items, rfl, hnames, hversion, hget, hlisted, hread, hadmitted⟩
    exact ⟨⟨members, rfl, hnames, hversion, statement, items, hget, hlisted, hread⟩, hadmitted⟩
  · rintro ⟨⟨members, rfl, hnames, hversion, statement, items, hget, hlisted, hread⟩, hadmitted⟩
    exact ⟨members, statement, items, rfl, hnames, hversion, hget, hlisted, hread, hadmitted⟩

/-- A document that one type accepts is accepted by another if that admits its statements, and
nothing else is accepted by the other. -/
theorem validate_eq_ok_iff_of_validate (h : validate v t = .ok d) :
    validate v t' = .ok d' ↔ d' = d ∧ ∀ s ∈ d.statements, s.Admitted t' := by
  obtain ⟨⟨members, rfl, hread⟩, _⟩ := validate_eq_ok_iff_readFrom.1 h
  rw [validate_eq_ok_iff_readFrom]
  constructor
  · rintro ⟨⟨members', hmembers, hread'⟩, hadmitted⟩
    obtain rfl := Json.object.inj hmembers
    obtain rfl := hread.unique hread'
    exact ⟨rfl, hadmitted⟩
  · rintro ⟨rfl, hadmitted⟩
    exact ⟨⟨members, rfl, hread⟩, hadmitted⟩

end Document

/-! ### What the types admit -/

namespace Statement
variable {t : PolicyType} {s : Statement}

theorem admitted_trust_iff : s.Admitted .trust ↔ s.Admitted .resource ∧ s.resource = none := by
  have hmissing : s.resource.isSome = false ↔ s.resource = none := by
    rw [Option.isSome_eq_false_iff, Option.isNone_iff_eq_none]
  constructor
  · rintro ⟨hresource, hprincipal, hresources⟩
    exact ⟨⟨trivial, hprincipal, hresources⟩, hmissing.1 hresource⟩
  · rintro ⟨⟨_, hprincipal, hresources⟩, hresource⟩
    exact ⟨hmissing.2 hresource, hprincipal, hresources⟩

/-- An identity policy must not name the principals that every other policy must. -/
theorem Admitted.not_identity (h : s.Admitted t) (ht : t ≠ .identity) : ¬ s.Admitted .identity := by
  intro hidentity
  have hmissing : s.principal.isSome = false := hidentity.principal
  have hnamed : s.principal.isSome = true := by
    have hprincipal := h.principal
    cases t with
    | identity => exact absurd rfl ht
    | resource | trust => exact hprincipal
  rw [hmissing] at hnamed
  cases hnamed

end Statement

/-! ### Comparing the types -/

namespace Document
variable {t : PolicyType} {v : Json} {d d' : Document}

/-- Only a document without statements is one for an identity and one of another type. -/
theorem statements_eq_nil_of_validate (ht : t ≠ .identity) (h : validate v .identity = .ok d)
    (h' : validate v t = .ok d') : d.statements = [] := by
  obtain ⟨rfl, hadmitted'⟩ := (validate_eq_ok_iff_of_validate h).1 h'
  have hadmitted := (validate_eq_ok_iff_readFrom.1 h).2
  apply List.eq_nil_iff_forall_not_mem.2
  intro s hs
  exact (hadmitted' s hs).not_identity ht (hadmitted s hs)

/-- A document without statements is one of every type. -/
theorem validate_of_statements_eq_nil (h : validate v t = .ok d) (hnil : d.statements = [])
    (t' : PolicyType) : validate v t' = .ok d := by
  have hadmitted : ∀ s ∈ d.statements, s.Admitted t' := by
    rw [hnil]
    exact List.forall_mem_nil _
  exact (validate_eq_ok_iff_of_validate h).2 ⟨rfl, hadmitted⟩

/-- **What the type of a policy changes.**  A trust policy is a resource policy none of whose
statements has a resource clause.  A value that is an identity policy as well as one of another type
has no statements and is the same document under all types; so an identity policy with a statement
is of no other type, and a policy of another type with a statement is no identity policy. -/
theorem validate_types (v : Json) :
    (∀ d, validate v .trust = .ok d ↔
      validate v .resource = .ok d ∧ ∀ s ∈ d.statements, s.resource = none) ∧
    (∀ t d d', t ≠ .identity → validate v .identity = .ok d → validate v t = .ok d' →
      d.statements = [] ∧ ∀ t', validate v t' = .ok d) ∧
    (∀ t d, t ≠ .identity → validate v .identity = .ok d → d.statements ≠ [] →
      ∃ cause, validate v t = .error cause) ∧
    (∀ t d, t ≠ .identity → validate v t = .ok d → d.statements ≠ [] →
      ∃ cause, validate v .identity = .error cause) := by
  refine ⟨?_, ?_, ?_, ?_⟩
  · intro d
    rw [validate_eq_ok_iff_readFrom, validate_eq_ok_iff_readFrom, and_assoc]
    refine and_congr_right fun _ => ?_
    simp only [Statement.admitted_trust_iff, forall_and]
  · intro t d d' ht h h'
    have hnil : d.statements = [] := statements_eq_nil_of_validate ht h h'
    exact ⟨hnil, validate_of_statements_eq_nil h hnil⟩
  · intro t d ht h hne
    cases h' : validate v t with
    | error cause => exact ⟨cause, rfl⟩
    | ok d' => exact absurd (statements_eq_nil_of_validate ht h h') hne
  · intro t d ht h hne
    cases h' : validate v .identity with
    | error cause => exact ⟨cause, rfl⟩
    | ok d' =>
      obtain ⟨rfl, _⟩ := (validate_eq_ok_iff_of_validate h').1 h
      exact absurd (statements_eq_nil_of_validate ht h' h) hne

/-! ### Three policies -/

/-- A policy without statements. -/
def idlePolicy : Json :=
  .object [("Statement", .array []), ("Version", .string "2012-10-17")]

def idleDocument : Document := ⟨.v2012, []⟩

/-- Who may assume a role. -/
def rolePolicy : Json :=
  .object [
    ("Statement", .object [("Action", .string "sts:AssumeRole"), ("Effect", .string "Allow"),
      ("NotPrincipal", .string "*")]),
    ("Version", .string "2012-10-17")]

def roleDocument : Document where
  version := .v2012
  statements :=
    [{ effect := .allow
       action := .is ⟨["sts:AssumeRole"], by decide, by decide⟩
       resource := none
       principal := some (.isNot .anyone)
       condition := none }]

/-- What a user may read. -/
def readerPolicy : Json :=
  .object [
    ("Statement", .array [.object [("Action", .string "s3:Get*"), ("Effect", .string "Allow"),
      ("Resource", .string "*")]]),
    ("Version", .string "2008-10-17")]

def readerDocument : Document where
  version := .v2008
  statements :=
    [{ effect := .allow
       action := .is (.singleton "s3:Get*" (by decide))
       resource := some (.is (.singleton "*" (by decide)))
       principal := none
       condition := none }]

/-- The policy for a role is one for a resource too and none for a user, the one for a user is only
that, and the policy without statements is all of them. -/
theorem validate_idle_role_reader :
    (validate idlePolicy .identity = .ok idleDocument ∧
      validate idlePolicy .trust = .ok idleDocument ∧ idleDocument.statements = [] ∧
      validate idlePolicy .resource = .ok idleDocument) ∧
    (validate rolePolicy .trust = .ok roleDocument ∧ roleDocument.statements ≠ [] ∧
      validate rolePolicy .resource = .ok roleDocument ∧
      ∃ cause, validate rolePolicy .identity = .error cause) ∧
    validate readerPolicy .identity = .ok readerDocument ∧ readerDocument.statements ≠ [] ∧
      ∃ cause, validate readerPolicy .trust = .error cause := by
  have hidle : validate idlePolicy .identity = .ok idleDocument := by decide
  have hidle' : validate idlePolicy .trust = .ok idleDocument := by decide
  have hrole : validate rolePolicy .trust = .ok roleDocument := by decide
  have hreader : validate readerPolicy .identity = .ok readerDocument := by decide
  have htrust : PolicyType.trust ≠ .identity := by decide
  obtain ⟨hnil, hall⟩ := (validate_types idlePolicy).2.1 .trust _ _ htrust hidle hidle'
  obtain ⟨hresource, _⟩ := ((validate_types rolePolicy).1 roleDocument).1 hrole
  have hrefused := (validate_types rolePolicy).2.2.2 .trust roleDocument htrust hrole
    (List.cons_ne_nil _ _)
  have hrefused' := (validate_types readerPolicy).2.2.1 .trust readerDocument htrust hreader
    (List.cons_ne_nil _ _)
  exact ⟨⟨hidle, hidle', hnil, hall .resource⟩,
    ⟨hrole, List.cons_ne_nil _ _, hresource, hrefused⟩,
    hreader, List.cons_ne_nil _ _, hrefused'⟩

end Document

end AccessPolicy
