import AccessPolicy.Text.Worded

/-!
# The vocabulary of policies

The fixed words of policy documents: versions, effects, kinds of policies, the elements of documents
and statements, and the kinds of principals.
-/

namespace AccessPolicy

/-! ### Versions -/

/-- The versions of the policy language. -/
inductive Version
  | v2008
  | v2012
  deriving DecidableEq

/-- The date by which a version goes. -/
def Version.text : Version → String
  | .v2008 => "2008-10-17"
  | .v2012 => "2012-10-17"

instance : Worded Version where
  text := Version.text
  all := [.v2008, .v2012]
  find?_text v := by cases v <;> rfl

/-! ### Effects -/

/-- What a statement does to the requests that it applies to. -/
inductive Effect
  | allow
  | deny
  deriving DecidableEq

/-- The word for an effect. -/
def Effect.text : Effect → String
  | .allow => "Allow"
  | .deny => "Deny"

instance : Worded Effect where
  text := Effect.text
  all := [.allow, .deny]
  find?_text e := by cases e <;> rfl

/-! ### Kinds of policies -/

/-- What a policy is attached to, which settles the elements its statements have. -/
inductive PolicyType
  | identity
  | resource
  | trust
  deriving DecidableEq

/-- The word for a kind of policy. -/
def PolicyType.text : PolicyType → String
  | .identity => "identity"
  | .resource => "resource"
  | .trust => "trust"

instance : Worded PolicyType where
  text := PolicyType.text
  all := [.identity, .resource, .trust]
  find?_text t := by cases t <;> rfl

/-! ### Elements of a document -/

/-- The elements that a document has, both of them always. -/
inductive DocumentElement
  | version
  | statement
  deriving DecidableEq

/-- The name of an element. -/
def DocumentElement.text : DocumentElement → String
  | .version => "Version"
  | .statement => "Statement"

instance : Worded DocumentElement where
  text := DocumentElement.text
  all := [.version, .statement]
  find?_text e := by cases e <;> rfl

/-! ### Elements of a statement -/

/-- The elements that a statement may have. -/
inductive Element
  | effect
  | action
  | notAction
  | resource
  | notResource
  | principal
  | notPrincipal
  | condition
  deriving DecidableEq

/-- The name of an element. -/
def Element.text : Element → String
  | .effect => "Effect"
  | .action => "Action"
  | .notAction => "NotAction"
  | .resource => "Resource"
  | .notResource => "NotResource"
  | .principal => "Principal"
  | .notPrincipal => "NotPrincipal"
  | .condition => "Condition"

instance : Worded Element where
  text := Element.text
  all := [.action, .condition, .effect, .notAction, .notPrincipal, .notResource, .principal,
    .resource]
  find?_text e := by cases e <;> rfl

/-- The elements that come in a positive and a negative form.  A statement has at most one of a
pair. -/
inductive ElementPair
  | action
  | resource
  | principal
  deriving DecidableEq

namespace ElementPair

/-- The element whose values are those that match. -/
def positive : ElementPair → Element
  | .action => .action
  | .resource => .resource
  | .principal => .principal

/-- The element whose values are those that do not match. -/
def negative : ElementPair → Element
  | .action => .notAction
  | .resource => .notResource
  | .principal => .notPrincipal

/-- A pair goes by the name of its positive element. -/
def text (pair : ElementPair) : String := pair.positive.text

end ElementPair

instance : Worded ElementPair where
  text := ElementPair.text
  all := [.action, .resource, .principal]
  find?_text pair := by cases pair <;> rfl

/-! ### Kinds of principals -/

/-- What sort of identifiers a principal is named by. -/
inductive PrincipalKind
  | aws
  | canonicalUser
  | federated
  | service
  deriving DecidableEq

/-- The name of a kind. -/
def PrincipalKind.text : PrincipalKind → String
  | .aws => "AWS"
  | .canonicalUser => "CanonicalUser"
  | .federated => "Federated"
  | .service => "Service"

/-- The kinds are listed in the order of their names. -/
instance : Worded PrincipalKind where
  text := PrincipalKind.text
  all := [.aws, .canonicalUser, .federated, .service]
  find?_text kind := by cases kind <;> rfl

end AccessPolicy
