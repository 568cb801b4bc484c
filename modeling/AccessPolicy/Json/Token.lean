import AccessPolicy.Json.Numeral
import AccessPolicy.Json.Quoted

/-!
# Tokens

The words of a JSON text: brackets, commas, colons and scalars.  `Token.spell` writes one down and
`Lexed.ofChars` splits a text into as many as there are, with what is wrong at the point where no
further token can be read.  Blanks between tokens are skipped.
-/

namespace AccessPolicy.Json

/-- A word of a JSON text. -/
inductive Token
  | openArray
  | closeArray
  | openObject
  | closeObject
  | comma
  | colon
  | null
  | bool (value : Bool)
  | number (value : Number)
  | string (value : String)
  deriving DecidableEq

namespace Token

/-! ### Writing -/

/-- How a token is written. -/
def spell : Token → List Char
  | .openArray => ['[']
  | .closeArray => [']']
  | .openObject => ['{']
  | .closeObject => ['}']
  | .comma => [',']
  | .colon => [':']
  | .null => ['n', 'u', 'l', 'l']
  | .bool true => ['t', 'r', 'u', 'e']
  | .bool false => ['f', 'a', 'l', 's', 'e']
  | .number n => n.text
  | .string s => '"' :: Quoted.encode s.toList ++ ['"']

/-! ### Reading -/

/-- The rest of a word that is known from its first letter. -/
def scanWord (token : Token) : List Char → List Char → Except Fault (Token × List Char)
  | [], cs => .ok (token, cs)
  | _ :: _, [] => .error .truncated
  | w :: word, c :: cs => if c = w then scanWord token word cs else .error .malformed

/-- The token that begins with `c` and goes on in `cs`, and what follows it. -/
def scan (c : Char) (cs : List Char) : Except Fault (Token × List Char) :=
  match c with
  | '[' => .ok (.openArray, cs)
  | ']' => .ok (.closeArray, cs)
  | '{' => .ok (.openObject, cs)
  | '}' => .ok (.closeObject, cs)
  | ',' => .ok (.comma, cs)
  | ':' => .ok (.colon, cs)
  | 'n' => scanWord .null ['u', 'l', 'l'] cs
  | 't' => scanWord (.bool true) ['r', 'u', 'e'] cs
  | 'f' => scanWord (.bool false) ['a', 'l', 's', 'e'] cs
  | '"' => (Quoted.scan cs).map fun (s, rest) => (.string (String.ofList s), rest)
  | c =>
    if c = '-' ∨ c.isDigit then
      match Numeral.scan (c :: cs) with
      | .ok (numeral, rest) =>
        match numeral.number? with
        | some n => .ok (.number n, rest)
        | none => .error .malformed
      | .error fault => .error fault
    else .error .malformed

theorem scanWord_length {token t : Token} {word cs rest : List Char}
    (h : scanWord token word cs = .ok (t, rest)) : rest.length ≤ cs.length := by
  induction word generalizing cs with
  | nil =>
    simp only [scanWord, Except.ok.injEq, Prod.mk.injEq] at h
    simp [h.2]
  | cons w word ih =>
    cases cs with
    | nil => simp [scanWord] at h
    | cons c cs =>
      rw [scanWord] at h
      split at h
      · exact Nat.le_succ_of_le (ih h)
      · simp at h

/-- A token takes no more than there is. -/
theorem scan_length {c : Char} {cs rest : List Char} {t : Token} (h : scan c cs = .ok (t, rest)) :
    rest.length ≤ cs.length := by
  unfold scan at h
  split at h
  case h_7 | h_8 | h_9 => exact scanWord_length h
  case h_10 =>
    cases hs : Quoted.scan cs with
    | error => simp [hs, Except.map] at h
    | ok x =>
      simp only [hs, Except.map, Except.ok.injEq, Prod.mk.injEq] at h
      exact h.2 ▸ Nat.le_of_lt (Quoted.scan_length hs)
  case h_11 =>
    split at h
    · split at h
      · rename_i hscan
        split at h
        · simp only [Except.ok.injEq, Prod.mk.injEq] at h
          exact h.2 ▸ Nat.le_of_lt_succ (Numeral.scan_length hscan)
        · simp at h
      · simp at h
    · simp at h
  all_goals
    simp only [Except.ok.injEq, Prod.mk.injEq] at h
    simp [h.2]

end Token

/-! ### Whole texts -/

/-- What stands where no further token can be read. -/
structure Defect where
  /-- It begins like a string. -/
  opensString : Bool
  fault : Fault
  deriving DecidableEq

/-- A text as tokens, up to its end or to its first defect. -/
structure Lexed where
  tokens : List Token
  defect : Option Defect
  deriving DecidableEq

/-- The characters between tokens. -/
def isBlank (c : Char) : Bool := c = ' ' || c = '\t' || c = '\n' || c = '\r'

/-- Splits a text into tokens. -/
def Lexed.ofChars (cs : List Char) : Lexed :=
  match cs with
  | [] => ⟨[], none⟩
  | c :: cs =>
    if isBlank c then ofChars cs
    else
      match _h : Token.scan c cs with
      | .ok (token, rest) =>
        let after := ofChars rest
        { after with tokens := token :: after.tokens }
      | .error fault => ⟨[], some ⟨c = '"', fault⟩⟩
termination_by cs.length
decreasing_by
  · simp
  · exact Nat.lt_succ_of_le (Token.scan_length _h)

end AccessPolicy.Json
