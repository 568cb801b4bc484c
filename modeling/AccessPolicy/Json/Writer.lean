import AccessPolicy.Json.Token

/-!
# Writing values

A value is written as its tokens in a row, with nothing between them.
-/

namespace AccessPolicy.Json

mutual

/-- The tokens of a value. -/
def tokens : Json → List Token
  | .null => [.null]
  | .bool b => [.bool b]
  | .number n => [.number n]
  | .string s => [.string s]
  | .array [] => [.openArray, .closeArray]
  | .array (v :: rest) => .openArray :: tokens v ++ furtherItems rest
  | .object [] => [.openObject, .closeObject]
  | .object ((k, v) :: rest) =>
    .openObject :: .string k :: .colon :: tokens v ++ furtherMembers rest

/-- The tokens of an array after one of its items. -/
def furtherItems : List Json → List Token
  | [] => [.closeArray]
  | v :: rest => .comma :: tokens v ++ furtherItems rest

/-- The tokens of an object after one of its members. -/
def furtherMembers : List (String × Json) → List Token
  | [] => [.closeObject]
  | (k, v) :: rest => .comma :: .string k :: .colon :: tokens v ++ furtherMembers rest

end

/-- The compact text of a value. -/
def text (v : Json) : String := String.ofList (v.tokens.flatMap Token.spell)

end AccessPolicy.Json
