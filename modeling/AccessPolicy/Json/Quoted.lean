import AccessPolicy.Json.Basic

/-!
# Quoted strings

How a string is written between quotes and read back.  Writing escapes the quote, the backslash and
the control characters below U+0020 and leaves every other character as it is.  Reading knows all
escapes of JSON: the eight short ones and `\u` with four hexadecimal digits, two of which in a row
write a character beyond U+FFFF as a pair of surrogates.
-/

namespace AccessPolicy.Json.Quoted

/-! ### Writing -/

/-- A digit of a number below 16, in lower case. -/
def hexDigit (n : Nat) : Char := if n < 10 then Char.ofNat (48 + n) else Char.ofNat (87 + n)

/-- How a character stands between quotes. -/
def encodeChar (c : Char) : List Char :=
  if c = '"' then ['\\', '"']
  else if c = '\\' then ['\\', '\\']
  else if c = '\x08' then ['\\', 'b']
  else if c = '\x0c' then ['\\', 'f']
  else if c = '\n' then ['\\', 'n']
  else if c = '\r' then ['\\', 'r']
  else if c = '\t' then ['\\', 't']
  else if c.toNat < 32 then ['\\', 'u', '0', '0', hexDigit (c.toNat / 16), hexDigit (c.toNat % 16)]
  else [c]

/-- The characters between the quotes. -/
def encode (s : List Char) : List Char := s.flatMap encodeChar

/-! ### Reading -/

/-- The value of a hexadecimal digit, in either case. -/
def hexValue? (c : Char) : Option Nat :=
  if '0' ≤ c ∧ c ≤ '9' then some (c.toNat - '0'.toNat)
  else if 'a' ≤ c ∧ c ≤ 'f' then some (c.toNat - 'a'.toNat + 10)
  else if 'A' ≤ c ∧ c ≤ 'F' then some (c.toNat - 'A'.toNat + 10)
  else none

/-- The UTF-16 unit that four hexadecimal digits write.  The text is at its end if it has fewer than
four bytes left in UTF-8, whatever they are. -/
def scanUnit (cs : List Char) : Except Fault (Nat × List Char) :=
  if (cs.take 4).foldl (fun bytes c => bytes + c.utf8Size) 0 < 4 then .error .truncated
  else match cs with
    | a :: b :: c :: d :: rest =>
      match hexValue? a, hexValue? b, hexValue? c, hexValue? d with
      | some a, some b, some c, some d => .ok (((a * 16 + b) * 16 + c) * 16 + d, rest)
      | _, _, _, _ => .error .malformed
    | _ => .error .malformed

/-- The units that begin a surrogate pair. -/
def isLead (unit : Nat) : Bool := 0xD800 ≤ unit && unit ≤ 0xDBFF

/-- The units that end a surrogate pair. -/
def isTrail (unit : Nat) : Bool := 0xDC00 ≤ unit && unit ≤ 0xDFFF

/-- The character that a surrogate pair writes. -/
def ofPair (lead trail : Nat) : Char :=
  Char.ofNat (0x10000 + (lead - 0xD800) * 0x400 + (trail - 0xDC00))

/-- The second half of a surrogate pair, which is an escape of its own. -/
def scanTrail (lead : Nat) : List Char → Except Fault (Char × List Char)
  | '\\' :: 'u' :: cs =>
    match scanUnit cs with
    | .ok (trail, rest) =>
      if isTrail trail then .ok (ofPair lead trail, rest) else .error .malformed
    | .error fault => .error fault
  | [] | ['\\'] => .error .truncated
  | _ => .error .malformed

/-- The character of a `\u` escape.  A surrogate stands for a character only in a pair. -/
def scanUnicode (cs : List Char) : Except Fault (Char × List Char) :=
  match scanUnit cs with
  | .ok (unit, rest) =>
    if isTrail unit then .error .malformed
    else if isLead unit then scanTrail unit rest
    else .ok (Char.ofNat unit, rest)
  | .error fault => .error fault

/-- The character that an escape stands for, given what follows the backslash. -/
def scanEscape : List Char → Except Fault (Char × List Char)
  | '"' :: rest => .ok ('"', rest)
  | '\\' :: rest => .ok ('\\', rest)
  | '/' :: rest => .ok ('/', rest)
  | 'b' :: rest => .ok ('\x08', rest)
  | 'f' :: rest => .ok ('\x0c', rest)
  | 'n' :: rest => .ok ('\n', rest)
  | 'r' :: rest => .ok ('\r', rest)
  | 't' :: rest => .ok ('\t', rest)
  | 'u' :: rest => scanUnicode rest
  | [] => .error .truncated
  | _ => .error .malformed

theorem scanUnit_length {cs : List Char} {unit : Nat} {rest : List Char}
    (h : scanUnit cs = .ok (unit, rest)) : rest.length < cs.length := by
  unfold scanUnit at h
  split at h
  · simp at h
  · split at h
    · split at h
      · simp only [Except.ok.injEq, Prod.mk.injEq] at h
        simp only [List.length_cons, ← h.2]
        omega
      · simp at h
    · simp at h

theorem scanTrail_length {lead : Nat} {cs : List Char} {c : Char} {rest : List Char}
    (h : scanTrail lead cs = .ok (c, rest)) : rest.length < cs.length := by
  unfold scanTrail at h
  split at h
  · split at h
    · rename_i hunit
      split at h
      · simp only [Except.ok.injEq, Prod.mk.injEq] at h
        have := scanUnit_length hunit
        simp only [List.length_cons, ← h.2]
        omega
      · simp at h
    · simp at h
  all_goals simp at h

theorem scanUnicode_length {cs : List Char} {c : Char} {rest : List Char}
    (h : scanUnicode cs = .ok (c, rest)) : rest.length < cs.length := by
  unfold scanUnicode at h
  split at h
  · rename_i hunit
    have := scanUnit_length hunit
    split at h
    · simp at h
    · split at h
      · have := scanTrail_length h
        omega
      · simp only [Except.ok.injEq, Prod.mk.injEq] at h
        simp only [← h.2]
        omega
  · simp at h

/-- An escape takes at least one character. -/
theorem scanEscape_length {cs : List Char} {c : Char} {rest : List Char}
    (h : scanEscape cs = .ok (c, rest)) : rest.length < cs.length := by
  unfold scanEscape at h
  split at h
  case h_9 =>
    have := scanUnicode_length h
    simp only [List.length_cons]
    omega
  all_goals simp at h
  all_goals simp [← h.2]

/-- The characters up to the closing quote, and what follows it. -/
def scan (cs : List Char) : Except Fault (List Char × List Char) :=
  match cs with
  | [] => .error .truncated
  | c :: rest =>
    if c = '"' then .ok ([], rest)
    else if c = '\\' then
      match _h : scanEscape rest with
      | .ok (c, rest) => (scan rest).map fun (s, after) => (c :: s, after)
      | .error fault => .error fault
    else if c < ' ' then .error .malformed
    else (scan rest).map fun (s, after) => (c :: s, after)
termination_by cs.length
decreasing_by
  · have := scanEscape_length _h
    simp only [List.length_cons]
    omega
  · simp

/-- A closing quote was taken, so something was. -/
theorem scan_length {cs s rest : List Char} (h : scan cs = .ok (s, rest)) :
    rest.length < cs.length := by
  fun_induction scan cs generalizing s with
  | case1 => simp at h
  | case2 =>
    simp only [Except.ok.injEq, Prod.mk.injEq] at h
    simp [h.2]
  | case3 rest' c rest'' hescape _ ih =>
    cases hscan : scan rest'' with
    | error => simp [hscan, Except.map] at h
    | ok x =>
      simp only [hscan, Except.map, Except.ok.injEq, Prod.mk.injEq] at h
      have := ih (by rw [hscan, ← h.2])
      have := scanEscape_length hescape
      simp only [List.length_cons]
      omega
  | case4 => simp at h
  | case5 => simp at h
  | case6 c rest' _ _ _ ih =>
    cases hscan : scan rest' with
    | error => simp [hscan, Except.map] at h
    | ok x =>
      simp only [hscan, Except.map, Except.ok.injEq, Prod.mk.injEq] at h
      have := ih (by rw [hscan, ← h.2])
      simp only [List.length_cons]
      omega

end AccessPolicy.Json.Quoted
