import AccessPolicy.Json.Double

/-!
# JSON values

The values that policies, conditions and catalogs are written in.  An object is the list of its
members in the order in which they stand; whether a name may be repeated and which member then
counts is decided where a value is used (`Members.get?` here, `Json.canonical` for documents).

A number is an integer where it is written as one, and a double otherwise.

A text that should hold a value is read from left to right and refused for the first problem met,
which is one of the three kinds of `Json.Fault`.
-/

namespace AccessPolicy

namespace Json

/-- A number: `int` is kept exactly, `double` to the nearest finite double. -/
inductive Number
  | int (value : Int)
  | double (value : Double)
  deriving DecidableEq

end Json

/-- A JSON value. -/
inductive Json
  | null
  | bool (value : Bool)
  | number (value : Json.Number)
  | string (value : String)
  | array (items : List Json)
  | object (members : List (String × Json))

namespace Json

/-- The members of an object. -/
abbrev Members := List (String × Json)

namespace Members

/-- The value of the first member with a given name. -/
def get? (members : Members) (name : String) : Option Json := members.lookup name

/-- The names of the members, in order. -/
def names (members : Members) : List String := members.map (·.1)

@[simp] theorem get?_nil (name : String) : get? [] name = none := rfl

@[simp] theorem get?_cons (k : String) (v : Json) (members : Members) (name : String) :
    get? ((k, v) :: members) name = if name = k then some v else members.get? name := by
  rw [get?, List.lookup_cons, ← get?]
  by_cases h : name = k
  · simp [h]
  · rw [beq_false_of_ne h, if_neg h]

@[simp] theorem names_nil : names [] = [] := rfl

@[simp] theorem names_cons (name : String) (v : Json) (members : Members) :
    names ((name, v) :: members) = name :: members.names := rfl

@[simp] theorem names_append (before after : Members) :
    names (before ++ after) = before.names ++ after.names := List.map_append

end Members

/-! ### Parts -/

/-- The text of a string. -/
def string? : Json → Option String
  | .string s => some s
  | _ => none

@[simp] theorem string?_eq_some_iff {v : Json} {s : String} :
    v.string? = some s ↔ v = .string s := by
  cases v <;> simp [string?]

/-- The texts of an array of strings. -/
def strings? : Json → Option (List String)
  | .array items => items.mapM string?
  | _ => none

/-! ### Faults -/

/-- Why a text is refused. -/
inductive Fault
  /-- What stands there is not JSON. -/
  | malformed
  /-- The text ends inside a value. -/
  | truncated
  /-- The value that stands there, or begins there, is not of the kind asked for. -/
  | mistyped
  deriving DecidableEq

/-! ### Equality -/

mutual

/-- Equality of values is decided part by part. -/
def decEq : (v w : Json) → Decidable (v = w)
  | .null, .null => isTrue rfl
  | .bool a, .bool b => if h : a = b then isTrue (h ▸ rfl) else isFalse (by simpa using h)
  | .number a, .number b => if h : a = b then isTrue (h ▸ rfl) else isFalse (by simpa using h)
  | .string a, .string b => if h : a = b then isTrue (h ▸ rfl) else isFalse (by simpa using h)
  | .array xs, .array ys =>
    match decEqItems xs ys with
    | isTrue h => isTrue (h ▸ rfl)
    | isFalse h => isFalse (by simpa using h)
  | .object xs, .object ys =>
    match decEqMembers xs ys with
    | isTrue h => isTrue (h ▸ rfl)
    | isFalse h => isFalse (by simpa using h)
  | .null, .bool _ | .null, .number _ | .null, .string _ | .null, .array _ | .null, .object _
  | .bool _, .null | .bool _, .number _ | .bool _, .string _ | .bool _, .array _
  | .bool _, .object _ | .number _, .null | .number _, .bool _ | .number _, .string _
  | .number _, .array _ | .number _, .object _ | .string _, .null | .string _, .bool _
  | .string _, .number _ | .string _, .array _ | .string _, .object _ | .array _, .null
  | .array _, .bool _ | .array _, .number _ | .array _, .string _ | .array _, .object _
  | .object _, .null | .object _, .bool _ | .object _, .number _ | .object _, .string _
  | .object _, .array _ => isFalse (by simp)

/-- Equality of lists of values. -/
def decEqItems : (xs ys : List Json) → Decidable (xs = ys)
  | [], [] => isTrue rfl
  | x :: xs, y :: ys =>
    match decEq x y, decEqItems xs ys with
    | isTrue h, isTrue h' => isTrue (h ▸ h' ▸ rfl)
    | isFalse h, _ => isFalse (by simp [h])
    | _, isFalse h => isFalse (by simp [h])
  | [], _ :: _ | _ :: _, [] => isFalse (by simp)

/-- Equality of lists of members. -/
def decEqMembers : (xs ys : List (String × Json)) → Decidable (xs = ys)
  | [], [] => isTrue rfl
  | (k, x) :: xs, (l, y) :: ys =>
    if hk : k = l then
      match decEq x y, decEqMembers xs ys with
      | isTrue h, isTrue h' => isTrue (hk ▸ h ▸ h' ▸ rfl)
      | isFalse h, _ => isFalse (by simp [h])
      | _, isFalse h => isFalse (by simp [h])
    else isFalse (by simp [hk])
  | [], _ :: _ | _ :: _, [] => isFalse (by simp)

end

instance : DecidableEq Json := decEq

end Json

end AccessPolicy
