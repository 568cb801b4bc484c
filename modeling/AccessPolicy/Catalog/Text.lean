import AccessPolicy.Catalog.Basic
import AccessPolicy.Json.Reader

/-!
# Catalogs as text

A catalog is written as a JSON object whose members are the services, each with an array of the
names of its actions.  If a service is repeated its last array counts, but every array is checked:
a text in which any member is not an array of strings is refused.
-/

namespace AccessPolicy

namespace Catalog

/-- The shape of a catalog: an object of arrays of strings. -/
def shape : Json.Shape := .object (.array .string)

/-- The catalog that a value describes, if it is an object of arrays of strings. -/
def ofJson? : Json → Option Catalog
  | .object members =>
    (members.mapM fun (member : String × Json) =>
      member.2.strings?.map (member.1, ·)).map ofLastPairs
  | _ => none

/-- Reads a catalog. -/
def ofText (text : String) : Except Json.Fault Catalog := do
  match ofJson? (← Json.read Json.depthLimit shape text) with
  | some catalog => .ok catalog
  | none => .error .mistyped

end Catalog

end AccessPolicy
