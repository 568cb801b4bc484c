import AccessPolicy.Document.Basic
import AccessPolicy.Document.Error
import AccessPolicy.Json.Writer

/-!
# Validating documents

`Document.validate` reads a value as a policy document of a given type.  Checks are made in a fixed
order and the first that fails decides the error: the outline of the document, its version, then one
statement after the other.  Within a statement come the names of its elements, the three pairs, the
values of action, resource, principal and condition, the effect, and last the resource names.

Which pairs a statement must or may have depends on the type of the policy
(`PolicyType.resourceRequirement`, `PolicyType.principalRequirement`); an action is always required.
-/

namespace AccessPolicy

/-! ### Which elements there must be -/

/-- How a kind of policy treats a pair of elements. -/
inductive Requirement
  /-- One of them must be there.  If it is missing both are named. -/
  | either
  /-- One of them must be there.  If it is missing the positive one is named. -/
  | positive
  /-- Neither may be there. -/
  | forbidden
  /-- One of them may be there. -/
  | optional
  deriving DecidableEq

/-- Whether statements name resources. -/
def PolicyType.resourceRequirement : PolicyType → Requirement
  | .identity => .either
  | .resource => .optional
  | .trust => .forbidden

/-- Whether statements name principals. -/
def PolicyType.principalRequirement : PolicyType → Requirement
  | .identity => .forbidden
  | .resource => .either
  | .trust => .positive

/-- Checks the clause found for a pair against what is asked of the pair. -/
def Requirement.check {α : Type} (pair : ElementPair) :
    Requirement → Option (Clause α) → Except StatementError (Option (Clause α))
  | .either, none => .error (.pairRequired pair)
  | .positive, none => .error (.elementRequired pair.positive)
  | .forbidden, some _ => .error (.pairNotAllowed pair)
  | _, clause => .ok clause

/-! ### Values -/

/-- The member of an enumeration that a value is the word for.  What is no word is reported, a text
as it stands and any other value by its text. -/
def Worded.ofJson {α : Type} [Worded α] {ε : Type} (invalid : String → ε) : Json → Except ε α
  | .string s =>
    match ofText? s with
    | some a => .ok a
    | none => .error (invalid s)
  | v => .error (invalid v.text)

/-- The list of values that a string or an array of strings is. -/
def ValueList.ofJson? : Json → Option ValueList
  | .string s => ofList? [s]
  | v => v.strings?.bind ofList?

/-- The identifiers in an object.  Each member must be of a known kind and a list of values. -/
def PrincipalIds.ofMembers? (members : Json.Members) : Option PrincipalIds :=
  let get? := fun (kind : PrincipalKind) => (members.get? kind.text).bind ValueList.ofJson?
  if ∀ m ∈ members,
      (Worded.ofText? m.1 : Option PrincipalKind).isSome ∧ (ValueList.ofJson? m.2).isSome then
    if h : ∃ kind ∈ (Worded.all : List PrincipalKind), (get? kind).isSome then
      some ⟨get?, h.imp fun _ => And.right⟩
    else none
  else none

/-- The principal that a star or an object of identifiers is. -/
def Principal.ofJson? : Json → Option Principal
  | .string s => if s = "*" then some .anyone else none
  | .object members => (PrincipalIds.ofMembers? members).map .named
  | _ => none

/-! ### Statements -/

namespace Statement

/-- The clause that a statement has for a pair, if it has one. -/
def findClause (members : Json.Members) (pair : ElementPair) :
    Except StatementError (Option (Clause Json)) :=
  match members.get? pair.positive.text, members.get? pair.negative.text with
  | some _, some _ => .error (.mutuallyExclusive pair)
  | some v, none => .ok (some (.is v))
  | none, some v => .ok (some (.isNot v))
  | none, none => .ok none

/-- The clause for a pair that must be there. -/
def requiredClause (members : Json.Members) (pair : ElementPair) :
    Except StatementError (Clause Json) := do
  match ← findClause members pair with
  | some clause => .ok clause
  | none => .error (.pairRequired pair)

/-- The clause for a pair, as far as the pair is asked for. -/
def checkedClause (members : Json.Members) (pair : ElementPair) (requirement : Requirement) :
    Except StatementError (Option (Clause Json)) := do
  requirement.check pair (← findClause members pair)

/-- The value of an element, which must be of the right form. -/
def readValue {α : Type} (element : Element) (read : Json → Option α) (v : Json) :
    Except StatementError α :=
  match read v with
  | some a => .ok a
  | none => .error (.incorrectDefinition element)

/-- The condition of a statement, if it has one. -/
def readCondition (members : Json.Members) : Except StatementError (Option Json.Members) :=
  match members.get? Element.condition.text with
  | none => .ok none
  | some (.object condition) => .ok (some condition)
  | some _ => .error (.incorrectDefinition .condition)

/-- The effect of a statement. -/
def readEffect (members : Json.Members) : Except StatementError Effect :=
  match members.get? Element.effect.text with
  | none => .error (.elementRequired .effect)
  | some v => Worded.ofJson .invalidEffect v

/-- What is wrong with the first text that is neither `*` nor a resource name. -/
def firstArnError? (resources : List String) : Option ArnError :=
  resources.findSome? fun resource =>
    if resource = "*" then none
    else
      match Arn.parse resource with
      | .ok _ => none
      | .error cause => some cause

/-- Refuses a resource clause in which something is no resource name. -/
def checkResources : Option (Clause ValueList) → Except StatementError Unit
  | none => .ok ()
  | some clause =>
    match firstArnError? clause.value.values with
    | some cause => .error (.invalidResourceArn cause)
    | none => .ok ()

/-- Reads a statement of a policy of type `t`. -/
def validate (t : PolicyType) : Json → Except StatementError Statement
  | .object members => do
    Worded.checkNames Element .unsupportedElement (Json.Members.names members)
    let action ← requiredClause members .action
    let resource ← checkedClause members .resource t.resourceRequirement
    let principal ← checkedClause members .principal t.principalRequirement
    let action ← action.mapExcept (readValue .action ValueList.ofJson?)
    let resource ← resource.mapM (Clause.mapExcept (readValue .resource ValueList.ofJson?))
    let principal ← principal.mapM (Clause.mapExcept (readValue .principal Principal.ofJson?))
    let condition ← readCondition members
    let effect ← readEffect members
    checkResources resource
    return { effect, action, resource, principal, condition }
  | _ => .error .notAnObject

end Statement

/-! ### Documents -/

namespace Document

/-- Reads statements one after the other, the first of which has number `index`. -/
def validateStatements (t : PolicyType) (index : Nat) :
    List Json → Except DocumentError (List Statement)
  | [] => .ok []
  | v :: rest =>
    match Statement.validate t v with
    | .ok statement => (validateStatements t (index + 1) rest).map (statement :: ·)
    | .error cause => .error (.invalidStatement index cause)

/-- The value of an element that must be there. -/
def required (members : Json.Members) (element : DocumentElement) : Except DocumentError Json :=
  match members.get? element.text with
  | some v => .ok v
  | none => .error (.missingElement element)

/-- The statements in an array of them; one statement may stand without an array. -/
def listed : Json → Except DocumentError (List Json)
  | .array items => .ok items
  | .object members => .ok [.object members]
  | _ => .error (.invalidFormat .statementsNotListed)

/-- Reads a policy document of type `t`. -/
def validate (v : Json) (t : PolicyType) : Except DocumentError Document :=
  match v with
  | .object members => do
    let version ← required members .version
    let statement ← required members .statement
    Worded.checkNames DocumentElement .unsupportedElement (Json.Members.names members)
    let version ← Worded.ofJson .invalidVersion version
    let statements ← validateStatements t 0 (← listed statement)
    return { version, statements }
  | _ => .error (.invalidFormat .documentNotAnObject)

end Document

end AccessPolicy
