import AccessPolicy.Proofs.ByteOrder
import AccessPolicy.Proofs.FirstFailure
import AccessPolicy.Proofs.Grammar

/-!
# What can be wrong with a policy

Everything that a value is checked for before it is taken for a policy document, each check on its
own: `Statement.Fails` and `Document.Fails` say of a value when it does not pass a check and what
the cause is, without regard to the other checks.  In which order the checks are made is said by two
lists, `StatementCheck.order` and `DocumentCheck.order`.

A value may fail many checks at once.  That validation reports the first of them in these lists is
shown in the module on the order of checks.
-/

namespace AccessPolicy

/-! ### Names -/

/-- Of the names that are none of the known ones, the least in the order of bytes. -/
def Json.Members.LeastUnknown (members : Json.Members) (known : List String) (name : String) :
    Prop :=
  name ∈ members.names ∧ name ∉ known ∧
    ∀ other ∈ members.names, other ∉ known → Text.bytes name ≤ Text.bytes other

/-- The names of the two elements of a pair. -/
def ElementPair.names (pair : ElementPair) : List String :=
  [pair.positive.text, pair.negative.text]

/-! ### Values -/

/-- How a value that should have been some word is quoted. -/
def Json.quote : Json → String
  | .string s => s
  | v => v.text

/-- A value is a text or an array of texts. -/
def Json.HasTexts (v : Json) (texts : List String) : Prop :=
  (∃ s, v = .string s ∧ texts = [s]) ∨ v = .array (texts.map .string)

/-- The form that the value of an element of a pair has. -/
def ElementPair.WellFormed : ElementPair → Json → Prop
  | .action, v | .resource, v => v.IsTexts fun _ => True
  | .principal, v => IsPrincipal v

/-! ### Presence -/

/-- What is wrong if neither element of a pair is there, unless they may be missing. -/
def PolicyType.missing? : PolicyType → ElementPair → Option StatementError
  | _, .action => some (.pairRequired .action)
  | .identity, .resource => some (.pairRequired .resource)
  | .resource, .resource | .trust, .resource => none
  | .identity, .principal => none
  | .resource, .principal => some (.pairRequired .principal)
  | .trust, .principal => some (.elementRequired .principal)

/-- Whether neither element of a pair may be there. -/
def PolicyType.Forbids : PolicyType → ElementPair → Prop
  | .trust, .resource | .identity, .principal => True
  | _, _ => False

/-! ### Statements -/

/-- What a statement is checked for. -/
inductive StatementCheck
  /-- It is an object. -/
  | object
  /-- Its members are named like elements. -/
  | names
  /-- It has no two elements of a pair. -/
  | exclusive (pair : ElementPair)
  /-- It has what it needs of a pair, and nothing that it must not have. -/
  | presence (pair : ElementPair)
  /-- The value of an element of a pair is of the right form. -/
  | value (pair : ElementPair)
  /-- The condition is an object. -/
  | condition
  /-- There is an effect, and it is one of the two. -/
  | effect
  /-- The resources are names of resources. -/
  | resourceNames

/-- The order in which a statement is checked. -/
def StatementCheck.order : List StatementCheck :=
  [.object, .names,
    -- which elements there are
    .exclusive .action, .presence .action,
    .exclusive .resource, .presence .resource,
    .exclusive .principal, .presence .principal,
    -- what stands in them
    .value .action, .value .resource, .value .principal, .condition,
    .effect, .resourceNames]

/-- The names of the elements of a statement. -/
def elementNames : List String :=
  ["Effect", "Action", "NotAction", "Resource", "NotResource", "Principal", "NotPrincipal",
    "Condition"]

/-- A statement of a policy of type `t` does not pass a check, for a cause. -/
inductive Statement.Fails (t : PolicyType) : Json → StatementCheck → StatementError → Prop
  | object {v : Json} (h : ∀ members, v ≠ .object members) : Fails t v .object .notAnObject
  | names {members : Json.Members} {name : String} (h : members.LeastUnknown elementNames name) :
      Fails t (.object members) .names (.unsupportedElement name)
  | exclusive {members : Json.Members} {pair : ElementPair}
      (h : ∀ name ∈ pair.names, name ∈ members.names) :
      Fails t (.object members) (.exclusive pair) (.mutuallyExclusive pair)
  | missing {members : Json.Members} {pair : ElementPair} {cause : StatementError}
      (h : ∀ name ∈ pair.names, name ∉ members.names) (hcause : t.missing? pair = some cause) :
      Fails t (.object members) (.presence pair) cause
  | forbidden {members : Json.Members} {pair : ElementPair}
      (h : ∃ name ∈ pair.names, name ∈ members.names) (hforbids : t.Forbids pair) :
      Fails t (.object members) (.presence pair) (.pairNotAllowed pair)
  | value {members : Json.Members} {pair : ElementPair} {name : String} {v : Json}
      (hname : name ∈ pair.names) (hv : members.get? name = some v) (h : ¬ pair.WellFormed v) :
      Fails t (.object members) (.value pair) (.incorrectDefinition pair.positive)
  | condition {members : Json.Members} {v : Json} (hv : members.get? "Condition" = some v)
      (h : ∀ condition, v ≠ .object condition) :
      Fails t (.object members) .condition (.incorrectDefinition .condition)
  | noEffect {members : Json.Members} (h : "Effect" ∉ members.names) :
      Fails t (.object members) .effect (.elementRequired .effect)
  | effect {members : Json.Members} {v : Json} (hv : members.get? "Effect" = some v)
      (h : v ≠ .string "Allow" ∧ v ≠ .string "Deny") :
      Fails t (.object members) .effect (.invalidEffect v.quote)
  | resourceNames {members : Json.Members} {name : String} {v : Json} {resources : List String}
      {cause : ArnError} (hname : name ∈ ElementPair.resource.names)
      (hv : members.get? name = some v) (hresources : v.HasTexts resources)
      (h : FirstFailure (fun resource cause => resource ≠ "*" ∧ Arn.parse resource = .error cause)
        resources cause) :
      Fails t (.object members) .resourceNames (.invalidResourceArn cause)

/-! ### Documents -/

/-- What a document is checked for. -/
inductive DocumentCheck
  /-- It is an object. -/
  | object
  /-- It has an element. -/
  | presence (element : DocumentElement)
  /-- Its members are named like elements. -/
  | names
  /-- There is a version of this name. -/
  | version
  /-- There is a statement or an array of statements. -/
  | listed
  /-- The statement of this number passes its checks. -/
  | statement (index : Nat) (v : Json)

/-- The values of the statements that a value would have if it were a document. -/
def Document.statementValues : Json → List Json
  | .object members =>
    match Json.Members.get? members "Statement" with
    | some (.array items) => items
    | some v => [v]
    | none => []
  | _ => []

/-- The order in which a document with these statements is checked. -/
def DocumentCheck.order (statements : List Json) : List DocumentCheck :=
  [.object, .presence .version, .presence .statement, .names, .version, .listed] ++
    statements.zipIdx.map fun (v, index) => .statement index v

/-- A document of type `t` does not pass a check, for a cause. -/
inductive Document.Fails (t : PolicyType) : Json → DocumentCheck → DocumentError → Prop
  | object {v : Json} (h : ∀ members, v ≠ .object members) :
      Fails t v .object (.invalidFormat .documentNotAnObject)
  | presence {members : Json.Members} {element : DocumentElement}
      (h : element.text ∉ members.names) :
      Fails t (.object members) (.presence element) (.missingElement element)
  | names {members : Json.Members} {name : String}
      (h : members.LeastUnknown ["Version", "Statement"] name) :
      Fails t (.object members) .names (.unsupportedElement name)
  | version {members : Json.Members} {v : Json} (hv : members.get? "Version" = some v)
      (h : v ≠ .string "2008-10-17" ∧ v ≠ .string "2012-10-17") :
      Fails t (.object members) .version (.invalidVersion v.quote)
  | listed {members : Json.Members} {v : Json} (hv : members.get? "Statement" = some v)
      (h : (∀ items, v ≠ .array items) ∧ ∀ statement, v ≠ .object statement) :
      Fails t (.object members) .listed (.invalidFormat .statementsNotListed)
  | statement {members : Json.Members} {index : Nat} {v : Json} {cause : StatementError}
      (h : FirstFailure (Statement.Fails t v) StatementCheck.order cause) :
      Fails t (.object members) (.statement index v) (.invalidStatement index cause)

end AccessPolicy
