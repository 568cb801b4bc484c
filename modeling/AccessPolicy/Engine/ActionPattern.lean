import AccessPolicy.Catalog.Basic
import AccessPolicy.Glob.Basic
import AccessPolicy.Text.Cut

/-!
# Action patterns

An action is written as a service and a name with a colon between them.  An action pattern is
either `*`, which stands for every action, or a service, a colon and a glob pattern for the name.
The service of a pattern is literal.

A pattern is used only after it was verified against a catalog: its service must be there and must
have an action that the pattern describes.  `actionMatches` verifies all patterns of a list before
it matches any, so one that does not verify fails the whole list even if another one matches.
-/

namespace AccessPolicy

/-- Why a pattern does not verify. -/
inductive ActionError
  /-- There is no such service, or its name is not literal. -/
  | unknownService (service : String)
  /-- The pattern has no service or no name, or describes no action of its service. -/
  | unknownAction (pattern : String)
  deriving DecidableEq

/-- The wording of each cause. -/
def ActionError.message : ActionError → String
  | .unknownService service =>
    "Invalid Service In Action: The service " ++ service ++
      " specified in the action does not exist"
  | .unknownAction pattern => "Invalid Action: The action " ++ pattern ++ " does not exist."

/-- A pattern that was verified. -/
inductive ActionPattern
  | any
  | scoped (service name : String)
  deriving DecidableEq

namespace ActionPattern

/-- The service and the name of an action.  Without a colon all of it is the service. -/
def splitAction (action : String) : String × String := (Text.cut? ':' action).getD (action, "")

/-- Whether a pattern stands for an action. -/
def covers (action : String) : ActionPattern → Bool
  | .any => true
  | .scoped service name =>
    service = (splitAction action).1 && Glob.accepts name (splitAction action).2

end ActionPattern

/-- Whether a service is written with characters that mean something in a glob pattern. -/
def hasWildcard (service : String) : Bool := service.toList.any fun c => c = '*' || c = '?'

namespace Catalog

/-- Verifies a pattern. -/
def verify (catalog : Catalog) (pattern : String) : Except ActionError ActionPattern :=
  if pattern = "*" then .ok .any
  else
    match Text.cut? ':' pattern with
    | none => .error (.unknownAction pattern)
    | some (service, name) =>
      if hasWildcard service then .error (.unknownService service)
      else if name = "" then .error (.unknownAction pattern)
      else
        match catalog.actionsFor? service with
        | none => .error (.unknownService service)
        | some actions =>
          if actions.toList.any (Glob.accepts name) then .ok (.scoped service name)
          else .error (.unknownAction pattern)

/-- Whether some of the patterns stands for an action, given that all of them verify. -/
def actionMatches (catalog : Catalog) (action : String) (patterns : List String) :
    Except ActionError Bool :=
  (patterns.mapM catalog.verify).map fun verified => verified.any (ActionPattern.covers action)

end Catalog

end AccessPolicy
