import AccessPolicy.Json.Canonical
import AccessPolicy.Json.Token

/-!
# Reading values

A text is read token by token with a stack of the arrays and objects that are still open
(`Position.step`).  The first token that cannot stand where it does decides what is wrong with the
text.

A reader may ask for values of a certain shape (`Shape`), such as an object of arrays of strings.  A
value of another kind is refused where it begins, or, if it is a scalar, where it ends.

The members of an object are kept as they stand, repeated names included.  `Json.ofText` reads a
document, whose members are unique and in order.
-/

namespace AccessPolicy.Json

/-! ### Shapes -/

/-- What kind of value is asked for. -/
inductive Shape
  | any
  | string
  | array (items : Shape)
  | object (values : Shape)
  deriving DecidableEq

namespace Shape

/-- The shape of the items of an array, if there can be an array. -/
def items? : Shape → Option Shape
  | .any => some .any
  | .array items => some items
  | .string | .object _ => none

/-- The shape of the values in an object, if there can be an object. -/
def values? : Shape → Option Shape
  | .any => some .any
  | .object values => some values
  | .string | .array _ => none

/-- Whether a scalar can stand here. -/
def admits : Shape → Json → Bool
  | .any, _ => true
  | .string, .string _ => true
  | _, _ => false

end Shape

/-! ### Positions -/

/-- An array or object that is still open around a value: what it asks of its parts and the parts it
has so far, the last one first. -/
inductive Frame
  | items (shape : Shape) (items : List Json)
  | member (shape : Shape) (members : Members) (name : String)

/-- A place in a text, named for what is expected there. -/
inductive Position
  /-- A value. -/
  | atValue (outer : List Frame) (shape : Shape)
  /-- The first item of an array, or its end. -/
  | atItemOrEnd (outer : List Frame) (shape : Shape)
  /-- The first name in an object, or its end. -/
  | atNameOrEnd (outer : List Frame) (shape : Shape)
  /-- A further name in an object. -/
  | atName (outer : List Frame) (shape : Shape) (members : Members)
  /-- The colon after a name. -/
  | atColon (outer : List Frame) (shape : Shape) (members : Members) (name : String)
  /-- A comma after an item, or the end of the array. -/
  | afterItem (outer : List Frame) (shape : Shape) (items : List Json)
  /-- A comma after a member, or the end of the object. -/
  | afterMember (outer : List Frame) (shape : Shape) (members : Members)
  /-- Nothing more. -/
  | done (value : Json)

/-- The value that a token is by itself. -/
def Token.scalar? : Token → Option Json
  | .null => some .null
  | .bool b => some (.bool b)
  | .number n => some (.number n)
  | .string s => some (.string s)
  | .openArray | .closeArray | .openObject | .closeObject | .comma | .colon => none

namespace Position

/-- The place after a value. -/
def complete : List Frame → Json → Position
  | [], v => .done v
  | .items shape items :: outer, v => .afterItem outer shape (v :: items)
  | .member shape members name :: outer, v => .afterMember outer shape ((name, v) :: members)

/-- The first token of a value.  At most `limit` arrays and objects may be open at once. -/
def begin (limit : Nat) (outer : List Frame) (shape : Shape) (token : Token) :
    Except Fault Position :=
  match token with
  | .openArray =>
    match shape.items? with
    | some items =>
      if outer.length < limit then .ok (.atItemOrEnd outer items) else .error .malformed
    | none => .error .mistyped
  | .openObject =>
    match shape.values? with
    | some values =>
      if outer.length < limit then .ok (.atNameOrEnd outer values) else .error .malformed
    | none => .error .mistyped
  | token =>
    match token.scalar? with
    | some v => if shape.admits v then .ok (complete outer v) else .error .mistyped
    | none => .error .malformed

/-- A value begins as an array or an object, if one more may be open, or it is a scalar.  It has to
be of the kind asked for. -/
theorem begin_cases {limit : Nat} {outer : List Frame} {shape : Shape} {t : Token} {q : Position}
    (h : begin limit outer shape t = .ok q) :
    (∃ items, t = .openArray ∧ shape.items? = some items ∧ outer.length < limit ∧
        q = .atItemOrEnd outer items) ∨
      (∃ values, t = .openObject ∧ shape.values? = some values ∧ outer.length < limit ∧
        q = .atNameOrEnd outer values) ∨
      ∃ v, t.scalar? = some v ∧ shape.admits v = true ∧ q = complete outer v := by
  unfold begin at h
  split at h
  · -- an array
    split at h
    · rename_i items hitems
      split at h
      · rename_i hlength
        exact Or.inl ⟨items, rfl, hitems, hlength, (Except.ok.inj h).symm⟩
      · cases h
    · cases h
  · -- an object
    split at h
    · rename_i values hvalues
      split at h
      · rename_i hlength
        exact Or.inr (Or.inl ⟨values, rfl, hvalues, hlength, (Except.ok.inj h).symm⟩)
      · cases h
    · cases h
  · -- a scalar
    split at h
    · rename_i v hscalar
      split at h
      · rename_i hadmits
        exact Or.inr (Or.inr ⟨v, hscalar, hadmits, (Except.ok.inj h).symm⟩)
      · cases h
    · cases h

/-- Reads one token. -/
def step (limit : Nat) : Position → Token → Except Fault Position
  | .atValue outer shape, token => begin limit outer shape token
  | .atItemOrEnd outer _, .closeArray => .ok (complete outer (.array []))
  | .atItemOrEnd outer shape, token => begin limit (.items shape [] :: outer) shape token
  | .atNameOrEnd outer _, .closeObject => .ok (complete outer (.object []))
  | .atNameOrEnd outer shape, .string name => .ok (.atColon outer shape [] name)
  | .atName outer shape members, .string name => .ok (.atColon outer shape members name)
  | .atColon outer shape members name, .colon =>
    .ok (.atValue (.member shape members name :: outer) shape)
  | .afterItem outer shape items, .comma => .ok (.atValue (.items shape items :: outer) shape)
  | .afterItem outer _ items, .closeArray => .ok (complete outer (.array items.reverse))
  | .afterMember outer shape members, .comma => .ok (.atName outer shape members)
  | .afterMember outer _ members, .closeObject => .ok (complete outer (.object members.reverse))
  | _, _ => .error .malformed

/-- What the text is, given that no further token can be read.  A defect counts by its own kind only
where it begins like something that could stand there. -/
def finish : Position → Option Defect → Except Fault Json
  | .done v, none => .ok v
  | _, none => .error .truncated
  | .atValue _ _, some defect | .atItemOrEnd _ _, some defect => .error defect.fault
  | .atNameOrEnd _ _, some defect | .atName _ _ _, some defect =>
    .error (if defect.opensString then defect.fault else .malformed)
  | _, some _ => .error .malformed

end Position

/-! ### Whole texts -/

/-- The value that a text writes, of a given shape and with at most `limit` arrays and objects open
at once. -/
def read (limit : Nat) (shape : Shape) (text : String) : Except Fault Json := do
  let lexed := Lexed.ofChars text.toList
  let position ← lexed.tokens.foldlM (Position.step limit) (Position.atValue [] shape)
  position.finish lexed.defect

/-- How many arrays and objects a document may have open at once. -/
def depthLimit : Nat := 127

/-- Reads a document, in canonical form. -/
def ofText (text : String) : Except Fault Json := (read depthLimit .any text).map canonical

end AccessPolicy.Json
