import AccessPolicy.Document.Basic
import AccessPolicy.Engine.ActionPattern
import AccessPolicy.Engine.Request

/-!
# Evaluating requests

An engine holds a policy document with what is needed to answer requests: a catalog, a resource
matcher and the decision for requests to which no statement applies.  How a resource is compared
with a pattern is up to the user of an engine: any Boolean function of the two will do as a matcher.
Two are at hand, `ResourceMatcher.glob` and `ResourceMatcher.exact`.

Statements are gone through in order.  The first applicable one that denies settles the matter;
otherwise one that allows is enough.  Conditions are not evaluated: a denying statement is taken to
apply whatever its condition, an allowing one is not.  If an action pattern of a statement does not
verify, that is the result, unless a statement before it denies the request.
-/

namespace AccessPolicy

/-! ### Resource matchers -/

/-- Whether a resource, the first argument, is described by a pattern, the second one. -/
abbrev ResourceMatcher := String → String → Bool

namespace ResourceMatcher

/-- The pattern is a glob. -/
def glob : ResourceMatcher := fun resource pattern => Glob.accepts pattern resource

/-- The pattern is the resource. -/
def exact : ResourceMatcher := fun resource pattern => resource = pattern

/-- Whether some of the patterns describes a resource.  An empty resource is never described, and an
empty pattern describes nothing. -/
def matchesAny (matcher : ResourceMatcher) (resource : String) (patterns : List String) : Bool :=
  resource ≠ "" && patterns.any fun pattern => pattern ≠ "" && matcher resource pattern

end ResourceMatcher

/-! ### Engines -/

/-- What requests are answered from. -/
structure Engine where
  document : Document
  policyType : PolicyType
  catalog : Catalog
  matcher : ResourceMatcher
  default : Decision

namespace Engine

/-- Whether some of the patterns stands for an action. -/
def actionMatches (e : Engine) (action : String) (patterns : List String) :
    Except ActionError Bool :=
  e.catalog.actionMatches action patterns

/-- Whether some of the patterns describes a resource. -/
def resourceMatches (e : Engine) (resource : String) (patterns : List String) : Bool :=
  e.matcher.matchesAny resource patterns

/-- Whether an action clause holds for an action. -/
def actionApplies (e : Engine) (action : String) (clause : Clause ValueList) :
    Except ActionError Bool :=
  (e.actionMatches action clause.value.values).map (· != clause.negated)

/-- Whether a resource clause holds for a resource.  A missing clause always does. -/
def resourceApplies (e : Engine) (resource : String) : Option (Clause ValueList) → Bool
  | none => true
  | some clause => e.resourceMatches resource clause.value.values != clause.negated

/-- Whether a statement's condition is taken to hold. -/
def conditionApplies (s : Statement) : Bool := s.condition.isNone || s.effect = .deny

/-- Whether a statement applies to a request. -/
def applies (e : Engine) (request : Request) (s : Statement) : Except ActionError Bool :=
  (e.actionApplies request.action s.action).map fun action =>
    action && e.resourceApplies request.resource s.resource && conditionApplies s

/-- The effect of the statements on a request; `none` if none of them applies. -/
def effectOf (e : Engine) (request : Request) : List Statement → Except ActionError (Option Effect)
  | [] => .ok none
  | s :: rest =>
    match e.applies request s with
    | .error cause => .error cause
    | .ok false => effectOf e request rest
    | .ok true =>
      match s.effect with
      | .deny => .ok (some .deny)
      | .allow => (effectOf e request rest).map fun later => some (later.getD .allow)

/-- Answers a request. -/
def evaluate (e : Engine) (request : Request) : Except ActionError Decision :=
  (e.effectOf request e.document.statements).map fun
    | some effect => effect.decision
    | none => e.default

end Engine

end AccessPolicy
