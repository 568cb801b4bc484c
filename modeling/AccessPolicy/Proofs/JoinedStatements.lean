import AccessPolicy.Proofs.Reading
import Mathlib.Data.List.Basic

/-!
# The statements of two documents in one

Statements are validated one after the other, and none has a part in how another is read.  So the
statements of two documents can be put together in one document: it is valid if both are, and if
not, the statement that is refused is the same, counted from where it stands now.

Three equations carry this.  What is checked before the statements does not depend on them
(`Document.validate_withStatement`); statements after others are read as if they stood alone, but
numbered from there on (`Document.validateStatements_append`); and the number from which they are
counted shows in the cause of a refusal only (`Document.validateStatements_add`).

Main statement: `Document.validate_joined`.
-/

namespace AccessPolicy

/-- What a cause becomes if `n` statements more stand before. -/
def DocumentError.shift (n : Nat) : DocumentError → DocumentError
  | .invalidStatement index cause => .invalidStatement (n + index) cause
  | cause => cause

namespace Document

/-! ### Lists of statements -/

section
variable {t : PolicyType} {index : Nat} {xs : List Json} {cause : DocumentError}

/-- Statements that stand after others are numbered from there on. -/
theorem validateStatements_append (t : PolicyType) (index : Nat) (xs ys : List Json) :
    validateStatements t index (xs ++ ys) =
      validateStatements t index xs >>= fun statements =>
        (validateStatements t (index + xs.length) ys).map (statements ++ ·) := by
  induction xs generalizing index with
  | nil =>
    change validateStatements t index ys = (validateStatements t index ys).map id
    rw [Except.map_id, id_eq]
  | cons x xs ih =>
    have hnext : index + (x :: xs).length = index + 1 + xs.length := by
      rw [List.length_cons]
      omega
    rw [List.cons_append, validateStatements, validateStatements, hnext, ih]
    cases Statement.validate t x with
    | error cause => rfl
    | ok s =>
      cases validateStatements t (index + 1) xs with
      | error cause => rfl
      | ok statements => cases validateStatements t (index + 1 + xs.length) ys <;> rfl

theorem validateStatements_append_eq_ok_iff {ys : List Json} {statements : List Statement} :
    validateStatements t index (xs ++ ys) = .ok statements ↔
      ∃ ss₁ ss₂, validateStatements t index xs = .ok ss₁ ∧
        validateStatements t index ys = .ok ss₂ ∧ statements = ss₁ ++ ss₂ := by
  simp only [validateStatements_eq_ok_iff, List.map_append]
  constructor
  · intro h
    obtain ⟨ss₁, ss₂, rfl, hss₁, hss₂⟩ := List.map_eq_append_iff.1 h.symm
    exact ⟨ss₁, ss₂, hss₁.symm, hss₂.symm, rfl⟩
  · rintro ⟨ss₁, ss₂, hss₁, hss₂, rfl⟩
    rw [hss₁, hss₂, List.map_append]

/-- Where counting begins is seen in a refusal only. -/
theorem validateStatements_add (t : PolicyType) (n index : Nat) (xs : List Json) :
    validateStatements t (n + index) xs =
      (validateStatements t index xs).mapError (DocumentError.shift n) := by
  induction xs generalizing index with
  | nil => rfl
  | cons x xs ih =>
    have hnext : n + index + 1 = n + (index + 1) := Nat.add_assoc n index 1
    rw [validateStatements, validateStatements, hnext, ih]
    cases Statement.validate t x with
    | error cause => rfl
    | ok s => cases validateStatements t (index + 1) xs <;> rfl

/-- Among statements nothing is refused but statements. -/
theorem exists_eq_invalidStatement (h : validateStatements t index xs = .error cause) :
    ∃ i kind, cause = .invalidStatement i kind := by
  induction xs generalizing index with
  | nil => cases h
  | cons x xs ih =>
    rw [validateStatements] at h
    cases hx : Statement.validate t x with
    | error kind =>
      rw [hx] at h
      exact ⟨index, kind, (Except.error.inj h).symm⟩
    | ok s =>
      rw [hx] at h
      exact ih (Except.map_eq_error_iff.1 h)

/-- What is refused after statements that are not is refused with the number it has there. -/
theorem validateStatements_append_of_error {ys : List Json} {statements : List Statement}
    (hxs : validateStatements t 0 xs = .ok statements)
    (hys : validateStatements t 0 ys = .error cause) :
    ∃ i kind, cause = .invalidStatement i kind ∧
      validateStatements t 0 (xs ++ ys) = .error (.invalidStatement (xs.length + i) kind) := by
  obtain ⟨i, kind, rfl⟩ := exists_eq_invalidStatement hys
  have hshifted : validateStatements t (xs.length + 0) ys =
      .error (.invalidStatement (xs.length + i) kind) := by
    rw [validateStatements_add, hys]
    rfl
  refine ⟨i, kind, rfl, ?_⟩
  rw [validateStatements_append, hxs, Nat.add_comm 0]
  exact Except.map_eq_error_iff.2 hshifted

end

/-! ### What stands around the statements -/

/-- An object with a given `Statement` member among other members. -/
def withStatement (before after : Json.Members) (statement : Json) : Json :=
  .object (before ++ (DocumentElement.statement.text, statement) :: after)

/-- What is found before the statements are looked at. -/
def versionAround (others : Json.Members) : Except DocumentError Version := do
  let version ← required others .version
  Worded.checkNames DocumentElement .unsupportedElement others.names
  Worded.ofJson .invalidVersion version

section
variable {before after : Json.Members} (h : DocumentElement.statement.text ∉ before.names)
include h

/-- What is checked before the statements depends on the other members only. -/
theorem validate_withStatement (statement : Json) (t : PolicyType) :
    validate (withStatement before after statement) t =
      versionAround (before ++ after) >>= fun version => listed statement >>= fun items =>
        (validateStatements t 0 items).map fun statements => { version, statements } := by
  have hstatement : required (before ++ (DocumentElement.statement.text, statement) :: after)
      .statement = .ok statement := by
    rw [required, Json.Members.get?_append_cons_self h]
  have hversion : required (before ++ (DocumentElement.statement.text, statement) :: after)
      .version = required (before ++ after) .version := by
    have hne : DocumentElement.version.text ≠ DocumentElement.statement.text := by decide
    rw [required, required, Json.Members.get?_append_cons_of_ne hne]
  -- `Statement` is the name of an element, so it passes the check of names
  have hnames : Worded.checkNames DocumentElement DocumentError.unsupportedElement
      (Json.Members.names (before ++ (DocumentElement.statement.text, statement) :: after)) =
        Worded.checkNames DocumentElement .unsupportedElement
          (Json.Members.names (before ++ after)) := by
    rw [Json.Members.names_append, Json.Members.names_cons, Json.Members.names_append]
    exact Worded.checkNames_append_cons DocumentElement.statement
  unfold withStatement validate versionAround
  simp only [hstatement, hversion, hnames, bind_assoc]
  rfl

variable {t : PolicyType} {xs : List Json} {d : Document} {cause : DocumentError}

theorem validate_array_eq_ok_iff :
    validate (withStatement before after (.array xs)) t = .ok d ↔
      versionAround (before ++ after) = .ok d.version ∧
        validateStatements t 0 xs = .ok d.statements := by
  rw [validate_withStatement h, Except.bind_eq_ok_iff]
  constructor
  · rintro ⟨version, hversion, hd⟩
    obtain ⟨statements, hstatements, rfl⟩ := Except.map_eq_ok_iff.1 hd
    exact ⟨hversion, hstatements⟩
  · rintro ⟨hversion, hstatements⟩
    exact ⟨d.version, hversion, Except.map_eq_ok_iff.2 ⟨d.statements, hstatements, rfl⟩⟩

theorem validate_array_eq_error_iff :
    validate (withStatement before after (.array xs)) t = .error cause ↔
      versionAround (before ++ after) = .error cause ∨
        (∃ version, versionAround (before ++ after) = .ok version) ∧
          validateStatements t 0 xs = .error cause := by
  rw [validate_withStatement h, Except.bind_eq_error_iff]
  refine or_congr_right ?_
  constructor
  · rintro ⟨version, hversion, hcause⟩
    exact ⟨⟨version, hversion⟩, Except.map_eq_error_iff.1 hcause⟩
  · rintro ⟨⟨version, hversion⟩, hcause⟩
    exact ⟨version, hversion, Except.map_eq_error_iff.2 hcause⟩

/-! ### Two documents in one -/

/-- **Validation of statements is compositional.**  A document with the statements of two others is
valid exactly if these are, and then it has the statements of both, one list after the other.  What
is wrong with the first is wrong with it; what is wrong with the second alone is wrong with it too,
under the number that the statement has now.  One statement may stand without its array. -/
theorem validate_joined (t : PolicyType) :
    (∀ xs ys d, validate (withStatement before after (.array (xs ++ ys))) t = .ok d ↔
      ∃ d₁ d₂, validate (withStatement before after (.array xs)) t = .ok d₁ ∧
        validate (withStatement before after (.array ys)) t = .ok d₂ ∧
        d.version = d₁.version ∧ d.version = d₂.version ∧
        d.statements = d₁.statements ++ d₂.statements) ∧
    (∀ xs ys cause, validate (withStatement before after (.array xs)) t = .error cause →
      validate (withStatement before after (.array (xs ++ ys))) t = .error cause) ∧
    (∀ xs ys d₁ cause, validate (withStatement before after (.array xs)) t = .ok d₁ →
      validate (withStatement before after (.array ys)) t = .error cause →
      ∃ i kind, cause = .invalidStatement i kind ∧
        validate (withStatement before after (.array (xs ++ ys))) t =
          .error (.invalidStatement (xs.length + i) kind)) ∧
    ∀ members, validate (withStatement before after (.object members)) t =
      validate (withStatement before after (.array [.object members])) t := by
  refine ⟨fun xs ys d => ?_, fun xs ys cause hcause => ?_, fun xs ys d₁ cause hd₁ hcause => ?_,
    fun members => ?_⟩
  · rw [validate_array_eq_ok_iff h, validateStatements_append_eq_ok_iff]
    constructor
    · rintro ⟨hversion, ss₁, ss₂, hss₁, hss₂, hstatements⟩
      exact ⟨⟨d.version, ss₁⟩, ⟨d.version, ss₂⟩, (validate_array_eq_ok_iff h).2 ⟨hversion, hss₁⟩,
        (validate_array_eq_ok_iff h).2 ⟨hversion, hss₂⟩, rfl, rfl, hstatements⟩
    · rintro ⟨d₁, d₂, hd₁, hd₂, hversion₁, _, hstatements⟩
      obtain ⟨hversion, hss₁⟩ := (validate_array_eq_ok_iff h).1 hd₁
      obtain ⟨_, hss₂⟩ := (validate_array_eq_ok_iff h).1 hd₂
      rw [hversion₁]
      exact ⟨hversion, d₁.statements, d₂.statements, hss₁, hss₂, hstatements⟩
  · rw [validate_array_eq_error_iff h] at hcause ⊢
    -- the first list is gone through first
    refine hcause.imp_right (And.imp_right fun hxs => ?_)
    rw [validateStatements_append, Except.bind_eq_error_iff]
    exact Or.inl hxs
  · obtain ⟨hversion, hxs⟩ := (validate_array_eq_ok_iff h).1 hd₁
    rcases (validate_array_eq_error_iff h).1 hcause with hcause | ⟨_, hys⟩
    · -- what stands around has passed with the first list
      rw [hversion] at hcause
      cases hcause
    · obtain ⟨i, kind, hcause', hjoined⟩ := validateStatements_append_of_error hxs hys
      exact ⟨i, kind, hcause', (validate_array_eq_error_iff h).2 (Or.inr ⟨⟨_, hversion⟩, hjoined⟩)⟩
  · rw [validate_withStatement h, validate_withStatement h]
    rfl

end

/-- A statement that allows to read all logs. -/
def readLogs : Json :=
  .object [("Action", .string "logs:Get*"), ("Effect", .string "Allow"),
    ("Resource", .string "arn:aws:logs:*:*:*")]

/-- The statement as it is read. -/
def readLogsStatement : Statement where
  effect := .allow
  action := .is (.singleton "logs:Get*" (by decide))
  resource := some (.is (.singleton "arn:aws:logs:*:*:*" (by decide)))
  principal := none
  condition := none

/-- The policy with given statements, or with one. -/
def policyOf (statement : Json) : Json :=
  withStatement [] [("Version", .string "2012-10-17")] statement

/-- The statement may stand alone, in an array and twice.  What is no statement is reported as
number 0 where it stands first, whatever follows, as number 1 after the statement, and as number 2
once the statement is put in front again. -/
theorem validate_readLogs_joined :
    DocumentElement.statement.text ∉ Json.Members.names [] ∧
      validate (policyOf readLogs) .identity = .ok ⟨.v2012, [readLogsStatement]⟩ ∧
      validate (policyOf (.array [readLogs, readLogs])) .identity =
        .ok ⟨.v2012, [readLogsStatement, readLogsStatement]⟩ ∧
      validate (policyOf (.array [.null])) .identity = .error (.invalidStatement 0 .notAnObject) ∧
      validate (policyOf (.array [.null, readLogs])) .identity =
        .error (.invalidStatement 0 .notAnObject) ∧
      validate (policyOf (.array [readLogs, .null])) .identity =
        .error (.invalidStatement 1 .notAnObject) ∧
      validate (policyOf (.array [readLogs, readLogs, .null])) .identity =
        .error (.invalidStatement 2 .notAnObject) := by
  have hnames : DocumentElement.statement.text ∉ Json.Members.names [] := List.not_mem_nil
  have hread : validate (policyOf (.array [readLogs])) .identity =
      .ok ⟨.v2012, [readLogsStatement]⟩ := by decide
  have hnull : validate (policyOf (.array [.null])) .identity =
      .error (.invalidStatement 0 .notAnObject) := by decide
  have hsecond : validate (policyOf (.array [readLogs, .null])) .identity =
      .error (.invalidStatement 1 .notAnObject) := by decide
  obtain ⟨hboth, hfirst, hlater, halone⟩ :=
    @validate_joined [] [("Version", .string "2012-10-17")] hnames .identity
  have htwice : validate (policyOf (.array [readLogs, readLogs])) .identity =
      .ok ⟨.v2012, [readLogsStatement, readLogsStatement]⟩ :=
    (hboth [readLogs] [readLogs] _).2 ⟨_, _, hread, hread, rfl, rfl, rfl⟩
  obtain ⟨i, kind, hcause, hthird⟩ := hlater [readLogs] [readLogs, .null] _ _ hread hsecond
  obtain ⟨rfl, rfl⟩ := DocumentError.invalidStatement.inj hcause
  exact ⟨hnames, (halone _).trans hread, htwice, hnull, hfirst [.null] [readLogs] _ hnull, hsecond,
    hthird⟩

end Document

end AccessPolicy
