import AccessPolicy.Document.Vocabulary

/-!
# Requests and decisions

A request asks whether an action may be done on a resource; the answer is a decision.  There is
always an action.  The resource may be empty, for policies that do not speak of resources.
-/

namespace AccessPolicy

/-- The answer to a request. -/
inductive Decision
  | allowed
  | denied
  deriving DecidableEq

/-- The word for a decision. -/
def Decision.text : Decision → String
  | .allowed => "Allowed"
  | .denied => "Denied"

instance : Worded Decision where
  text := Decision.text
  all := [.allowed, .denied]
  find?_text d := by cases d <;> rfl

/-- The decision that a statement of this effect leads to. -/
def Effect.decision : Effect → Decision
  | .allow => .allowed
  | .deny => .denied

/-- A question whether an action may be done on a resource. -/
structure Request where
  action : String
  resource : String
  action_ne_empty : action ≠ ""
  deriving DecidableEq

/-- What is wrong with a request. -/
inductive RequestError
  | noAction
  deriving DecidableEq

namespace RequestError

/-- The reason why a request is refused. -/
def reason : RequestError → String
  | .noAction => "Action must be specified"

/-- The wording of each cause. -/
def message (e : RequestError) : String := "Bad request: " ++ e.reason

end RequestError

/-- The request for an action on a resource. -/
def Request.of (action resource : String) : Except RequestError Request :=
  if h : action = "" then .error .noAction else .ok ⟨action, resource, h⟩

end AccessPolicy
