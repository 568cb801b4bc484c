import AccessPolicy.Document.Basic
import AccessPolicy.Json.Canonical
import AccessPolicy.Json.Writer

/-!
# Writing documents

A document is written in two ways.  `Document.toJson` is a canonical value, with the members of
each object in order of their names.  `Document.text` is a text in the order in which policies are
usually read: the version first, and in a statement the effect, the principal, the action, the
resource and the condition.

Statements always stand in an array.  A list of one value is written as that value.
-/

namespace AccessPolicy

/-! ### Parts of a statement -/

/-- A list of values, or the value itself if there is only one. -/
def ValueList.toJson (list : ValueList) : Json :=
  match list.values with
  | [value] => .string value
  | values => .array (values.map .string)

/-- A star, or the identifiers by kind. -/
def Principal.toJson : Principal → Json
  | .anyone => .string "*"
  | .named ids => .object (ids.entries.map fun (kind, list) => (kind.text, list.toJson))

/-- The member that a clause is. -/
def Clause.member {α : Type} (pair : ElementPair) (write : α → Json) (clause : Clause α) :
    String × Json :=
  ((clause.element pair).text, write clause.value)

namespace Statement

/-- The members of a statement, in the order in which they are read. -/
def members (s : Statement) : Json.Members :=
  (Element.effect.text, .string s.effect.text) ::
    ((s.principal.map (Clause.member .principal Principal.toJson)).toList ++
      [s.action.member .action ValueList.toJson] ++
      (s.resource.map (Clause.member .resource ValueList.toJson)).toList ++
      (s.condition.map fun condition => (Element.condition.text, .object condition)).toList)

/-- A statement with its members in the order in which they are read. -/
def written (s : Statement) : Json := .object s.members

/-- A statement with its members in order of their names. -/
def toJson (s : Statement) : Json := .object (Json.Members.ofList s.members)

end Statement

namespace Document

/-- The members of a document, in the order in which they are read, with statements in a given
form. -/
def members (write : Statement → Json) (d : Document) : Json.Members :=
  [(DocumentElement.version.text, .string d.version.text),
    (DocumentElement.statement.text, .array (d.statements.map write))]

/-- A document with all members in the order in which they are read. -/
def written (d : Document) : Json := .object (d.members Statement.written)

/-- A document with all members in order of their names. -/
def toJson (d : Document) : Json := .object (Json.Members.ofList (d.members Statement.toJson))

/-- The compact text of a document. -/
def text (d : Document) : String := d.written.text

end Document

end AccessPolicy
