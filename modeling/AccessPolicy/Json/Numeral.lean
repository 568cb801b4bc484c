import AccessPolicy.Json.Basic
import AccessPolicy.Json.Shortest

/-!
# Numerals

How a number is written and read back.  A numeral has an optional minus sign, a whole part without
superfluous zeros and, optionally, a fraction and an exponent.  Without these two it stands for an
integer where that fits in 64 bits (signed below zero, unsigned above).  Every other numeral stands
for a double, and so does `-0`, which keeps its sign.

The double of a numeral is formed from a significand below `2 ^ 64` and a power of ten, each rounded
before they are multiplied or divided, so its last bit may differ from that of the nearest double.
Digits that no longer fit the significand are dropped.

Integers are written plainly.  A double is written with the fewest digits that read back, without an
exponent if its leading digit stands between the fifth decimal place and the sixteenth whole one.
-/

namespace AccessPolicy.Json

/-- The parts of a numeral.  A fraction that is there has a digit, so `[]` means that there is
none; an exponent is its sign and its digits. -/
structure Numeral where
  negative : Bool
  whole : List Char
  fraction : List Char
  exponent : Option (Bool × List Char)
  deriving DecidableEq

namespace Numeral

/-! ### Reading -/

/-- A run of digits, of which there must be one. -/
def scanDigits (cs : List Char) : Except Fault (List Char × List Char) :=
  match cs.takeWhile Char.isDigit, cs.dropWhile Char.isDigit with
  | [], [] => .error .truncated
  | [], _ :: _ => .error .malformed
  | digits, rest => .ok (digits, rest)

/-- A minus sign, if there is one. -/
def scanSign : List Char → Bool × List Char
  | '-' :: rest => (true, rest)
  | cs => (false, cs)

/-- The whole part, which begins with a zero only if it is zero. -/
def scanWhole (cs : List Char) : Except Fault (List Char × List Char) := do
  let (digits, rest) ← scanDigits cs
  if digits.head? = some '0' ∧ digits ≠ ['0'] then .error .malformed else .ok (digits, rest)

/-- A point and the digits after it, if there is a point. -/
def scanFraction : List Char → Except Fault (List Char × List Char)
  | '.' :: rest => scanDigits rest
  | cs => .ok ([], cs)

/-- The sign and the digits of an exponent, if there is one. -/
def scanExponent : List Char → Except Fault (Option (Bool × List Char) × List Char)
  | c :: rest =>
    if c = 'e' ∨ c = 'E' then
      match rest with
      | '+' :: rest => (scanDigits rest).map fun (digits, rest) => (some (false, digits), rest)
      | '-' :: rest => (scanDigits rest).map fun (digits, rest) => (some (true, digits), rest)
      | _ => (scanDigits rest).map fun (digits, rest) => (some (false, digits), rest)
    else .ok (none, c :: rest)
  | [] => .ok (none, [])

/-- The numeral at the front of a text, and what follows it. -/
def scan (cs : List Char) : Except Fault (Numeral × List Char) := do
  let (negative, cs) := scanSign cs
  let (whole, cs) ← scanWhole cs
  let (fraction, cs) ← scanFraction cs
  let (exponent, cs) ← scanExponent cs
  return ({ negative, whole, fraction, exponent }, cs)

theorem scanDigits_length {cs digits rest : List Char} (h : scanDigits cs = .ok (digits, rest)) :
    rest.length < cs.length := by
  have hsplit : cs.takeWhile Char.isDigit ++ cs.dropWhile Char.isDigit = cs :=
    List.takeWhile_append_dropWhile
  unfold scanDigits at h
  split at h
  · simp at h
  · simp at h
  · rename_i hne hne'
    simp only [Except.ok.injEq, Prod.mk.injEq] at h
    have hlen := congrArg List.length hsplit
    rw [List.length_append] at hlen
    have hpos : (cs.takeWhile Char.isDigit).length ≠ 0 := by
      intro h0
      have h0 := List.length_eq_zero_iff.1 h0
      cases hd : cs.dropWhile Char.isDigit with
      | nil => exact hne h0 hd
      | cons c r => exact hne' c r h0 hd
    rw [← h.2]
    omega

theorem scanSign_length (cs : List Char) : (scanSign cs).2.length ≤ cs.length := by
  unfold scanSign
  split <;> simp

theorem scanWhole_length {cs digits rest : List Char} (h : scanWhole cs = .ok (digits, rest)) :
    rest.length < cs.length := by
  simp only [scanWhole, bind, Except.bind] at h
  split at h
  · simp at h
  · rename_i hdigits
    split at h
    · simp at h
    · simp only [Except.ok.injEq, Prod.mk.injEq] at h
      exact h.2 ▸ scanDigits_length hdigits

theorem scanFraction_length {cs digits rest : List Char}
    (h : scanFraction cs = .ok (digits, rest)) : rest.length ≤ cs.length := by
  unfold scanFraction at h
  split at h
  · have := scanDigits_length h
    simp only [List.length_cons]
    omega
  · simp only [Except.ok.injEq, Prod.mk.injEq] at h
    simp [h.2]

theorem scanExponent_length {cs rest : List Char} {exponent : Option (Bool × List Char)}
    (h : scanExponent cs = .ok (exponent, rest)) : rest.length ≤ cs.length := by
  have key {cs' : List Char} {sign : Bool}
      (h : (scanDigits cs').map (fun x => (some (sign, x.1), x.2)) = .ok (exponent, rest)) :
      rest.length < cs'.length := by
    cases hd : scanDigits cs' with
    | error => simp [hd, Except.map] at h
    | ok x =>
      simp only [hd, Except.map, Except.ok.injEq, Prod.mk.injEq] at h
      exact h.2 ▸ scanDigits_length hd
  unfold scanExponent at h
  split at h
  · split at h
    · split at h
      all_goals
        have := key h
        simp only [List.length_cons] at this ⊢
        omega
    · simp only [Except.ok.injEq, Prod.mk.injEq] at h
      simp [← h.2]
  · simp only [Except.ok.injEq, Prod.mk.injEq] at h
    simp [← h.2]

/-- A numeral takes at least one character. -/
theorem scan_length {cs rest : List Char} {n : Numeral} (h : scan cs = .ok (n, rest)) :
    rest.length < cs.length := by
  simp only [scan, bind, Except.bind] at h
  split at h
  · simp at h
  · rename_i hwhole
    split at h
    · simp at h
    · rename_i hfraction
      split at h
      · simp at h
      · rename_i hexponent
        simp only [pure, Except.pure, Except.ok.injEq, Prod.mk.injEq] at h
        have := scanSign_length cs
        have := scanWhole_length hwhole
        have := scanFraction_length hfraction
        have := scanExponent_length hexponent
        rw [← h.2]
        omega

/-! ### Value -/

/-- The number that a run of digits writes. -/
def natOf (digits : List Char) : Nat := Nat.ofDigitChars 10 digits 0

/-- The integer that a numeral writes, if it is written as one and fits in 64 bits. -/
def int? (n : Numeral) : Option Int :=
  if n.fraction = [] ∧ n.exponent = none then
    if n.negative then
      if 0 < natOf n.whole ∧ natOf n.whole ≤ twoTo 63 then some (-(natOf n.whole)) else none
    else if natOf n.whole < twoTo 64 then some (natOf n.whole) else none
  else none

/-- Extends a significand by digits as long as it stays below `2 ^ 64`, and gives the digits that
were left out. -/
def extend (significand : Nat) : List Char → Nat × List Char
  | [] => (significand, [])
  | d :: rest =>
    let longer := Nat.ofDigitChars 10 [d] significand
    if longer < twoTo 64 then extend longer rest else (significand, d :: rest)

/-- An exponent beyond this is not added up any more. -/
def greatestExponent : Nat := twoTo 31 - 1

/-- The absolute value of a numeral as a double; `none` if it is too large. -/
def magnitude? (n : Numeral) : Option Magnitude := do
  let (significand, dropped) := extend 0 n.whole
  let (significand, unread) := extend significand n.fraction
  let places : Int := dropped.length - (n.fraction.length - unread.length : Nat)
  match n.exponent with
  | none => (← Magnitude.ofNat? significand).scale? places
  | some (negative, digits) =>
    if natOf digits ≤ greatestExponent then
      (← Magnitude.ofNat? significand).scale?
        (if negative then places - natOf digits else places + natOf digits)
    else if significand = 0 ∨ negative then some Magnitude.zero
    else none

/-- The number that a numeral stands for; `none` if it is too large for a double. -/
def number? (n : Numeral) : Option Number :=
  match n.int? with
  | some value => some (.int value)
  | none => n.magnitude?.map fun magnitude => .double ⟨n.negative, magnitude⟩

end Numeral

/-! ### Writing -/

/-- The decimal digits of a natural number. -/
def digitsOf (n : Nat) : List Char := Nat.toDigits 10 n

/-- The exponents of the leading digit with which a double is written without an exponent. -/
def leastPlain : Int := -5

/-- The greatest of these exponents. -/
def greatestPlain : Int := 15

/-- Digits with a point after the digit of exponent 0, where the first has exponent `leading`.  At
least one digit stands on either side of the point. -/
def plainText (digits : List Char) (leading : Int) : List Char :=
  if leading < 0 then
    ['0', '.'] ++ List.replicate (-leading - 1).toNat '0' ++ digits
  else
    let width := leading.toNat + 1
    let whole := digits.take width
    let fraction := digits.drop width
    whole ++ List.replicate (width - whole.length) '0' ++ ['.'] ++
      (if fraction = [] then ['0'] else fraction)

/-- Digits with a point after the first, if there are more, and the exponent of the first. -/
def scientificText (digits : List Char) (leading : Int) : List Char :=
  digits.take 1 ++ (if digits.drop 1 = [] then [] else '.' :: digits.drop 1) ++
    ['e', if leading < 0 then '-' else '+'] ++ digitsOf leading.natAbs

/-- How a magnitude is written. -/
def Magnitude.text (x : Magnitude) : List Char :=
  if x.mantissa = 0 then ['0', '.', '0']
  else
    let decimal := x.shortest
    let all := digitsOf decimal.digits
    let leading := decimal.exponent + all.length - 1
    let digits := (all.reverse.dropWhile (· == '0')).reverse
    if leastPlain ≤ leading ∧ leading ≤ greatestPlain then plainText digits leading
    else scientificText digits leading

/-- How a number is written. -/
def Number.text : Number → List Char
  | .int value => (if value < 0 then ['-'] else []) ++ digitsOf value.natAbs
  | .double value => (if value.negative then ['-'] else []) ++ value.magnitude.text

end AccessPolicy.Json
