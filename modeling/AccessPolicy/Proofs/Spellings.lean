import AccessPolicy.Json.Numeral
import AccessPolicy.Json.Quoted
import AccessPolicy.Proofs.Except
import Mathlib.Tactic.SplitIfs

/-!
# The spellings of strings and numerals

A string has many spellings, as its characters may be escaped, each in more than one way.  So has a
number, and those of one numeral only differ in the letter and the sign of its exponent.  The
spellings are given here by the grammar of JSON (`Quoted.SpelledAs`, `Numeral.SpelledAs`), without
regard to how they are read, and each scanner is held against its part of the grammar.

What a scanner takes off the front of a text is a spelling of what it gives.  Conversely a spelling
is taken off as a whole, provided that what follows does not go on with it.  Nothing goes on with a
string behind its closing quote, but a digit, a point or a letter goes on with a numeral
(`Numeral.Ends`).

Main statements: `Quoted.scan_eq_ok_iff`, `Numeral.spelledAs_of_scan`, `Numeral.scan_of_spelledAs`.
-/

namespace AccessPolicy.Json

/-! ### Strings -/

namespace Quoted
variable {c : Char} {unit : Nat} {s cs front rest digits : List Char}

/-- Four hexadecimal digits, in either case, spell a UTF-16 unit. -/
inductive UnitSpelledAs : Nat → List Char → Prop
  | digits {a b c d : Char} {w x y z : Nat} (ha : hexValue? a = some w)
      (hb : hexValue? b = some x) (hc : hexValue? c = some y) (hd : hexValue? d = some z) :
      UnitSpelledAs (((w * 16 + x) * 16 + y) * 16 + z) [a, b, c, d]

/-- The letters that make an escape together with a backslash, and what each of them stands for. -/
def shortEscapes : List (Char × Char) :=
  [('"', '"'), ('\\', '\\'), ('/', '/'), ('b', '\x08'), ('f', '\x0c'), ('n', '\n'), ('r', '\r'),
    ('t', '\t')]

/-- How a character can stand between quotes: as itself, unless it is a quote, a backslash or a
control character; by a short escape; by the escape of its unit; or, beyond U+FFFF, by the escapes
of the two units of a surrogate pair. -/
inductive CharSpelledAs : Char → List Char → Prop
  | plain {c : Char} (hquote : c ≠ '"') (hslash : c ≠ '\\') (hcontrol : ¬ c < ' ') :
      CharSpelledAs c [c]
  | short {letter c : Char} (h : (letter, c) ∈ shortEscapes) : CharSpelledAs c ['\\', letter]
  | unit {unit : Nat} {digits : List Char} (h : UnitSpelledAs unit digits)
      (hlead : isLead unit = false) (htrail : isTrail unit = false) :
      CharSpelledAs (Char.ofNat unit) ('\\' :: 'u' :: digits)
  | pair {lead trail : Nat} {front back : List Char} (hfront : UnitSpelledAs lead front)
      (hlead : isLead lead = true) (hback : UnitSpelledAs trail back)
      (htrail : isTrail trail = true) :
      CharSpelledAs (ofPair lead trail) ('\\' :: 'u' :: (front ++ '\\' :: 'u' :: back))

/-- How a string can stand between quotes: each of its characters in one of its ways. -/
inductive SpelledAs : List Char → List Char → Prop
  | nil : SpelledAs [] []
  | cons {c : Char} {s front rest : List Char} (hc : CharSpelledAs c front)
      (hs : SpelledAs s rest) : SpelledAs (c :: s) (front ++ rest)

/-- Four digits are read as their number. -/
theorem scanUnit_of_digits {a b c d : Char} {w x y z : Nat} (ha : hexValue? a = some w)
    (hb : hexValue? b = some x) (hc : hexValue? c = some y) (hd : hexValue? d = some z)
    (rest : List Char) :
    scanUnit (a :: b :: c :: d :: rest) = .ok (((w * 16 + x) * 16 + y) * 16 + z, rest) := by
  have := a.utf8Size_pos
  have := b.utf8Size_pos
  have := c.utf8Size_pos
  have := d.utf8Size_pos
  rw [scanUnit, if_neg]
  · simp [ha, hb, hc, hd]
  · simp only [List.take_succ_cons, List.take_zero, List.foldl_cons, List.foldl_nil]
    omega

theorem scanUnit_eq_ok_iff : scanUnit cs = .ok (unit, rest) ↔
    ∃ digits, UnitSpelledAs unit digits ∧ cs = digits ++ rest := by
  constructor
  · intro h
    unfold scanUnit at h
    split_ifs at h
    split at h
    · split at h
      · rename_i ha hb hc hd
        simp only [Except.ok.injEq, Prod.mk.injEq] at h
        obtain ⟨rfl, rfl⟩ := h
        exact ⟨_, .digits ha hb hc hd, rfl⟩
      · cases h
    · cases h
  · rintro ⟨_, ⟨ha, hb, hc, hd⟩, rfl⟩
    exact scanUnit_of_digits ha hb hc hd rest

theorem scanTrail_eq_ok_iff {lead : Nat} : scanTrail lead cs = .ok (c, rest) ↔
    ∃ trail back, UnitSpelledAs trail back ∧ isTrail trail = true ∧ ofPair lead trail = c ∧
      cs = '\\' :: 'u' :: (back ++ rest) := by
  constructor
  · intro h
    unfold scanTrail at h
    split at h
    · split at h
      · rename_i trail _ hunit
        split_ifs at h with htrail
        simp only [Except.ok.injEq, Prod.mk.injEq] at h
        obtain ⟨rfl, rfl⟩ := h
        obtain ⟨back, hback, rfl⟩ := scanUnit_eq_ok_iff.1 hunit
        exact ⟨trail, back, hback, htrail, rfl, rfl⟩
      · cases h
    all_goals cases h
  · rintro ⟨trail, back, hback, htrail, rfl, rfl⟩
    have hunit : scanUnit (back ++ rest) = .ok (trail, rest) :=
      scanUnit_eq_ok_iff.2 ⟨back, hback, rfl⟩
    simp only [scanTrail, hunit, htrail, if_true]

theorem spelledAs_of_scanUnicode (h : scanUnicode cs = .ok (c, rest)) :
    ∃ front, CharSpelledAs c ('\\' :: 'u' :: front) ∧ cs = front ++ rest := by
  unfold scanUnicode at h
  split at h
  · rename_i hunit
    obtain ⟨front, hfront, rfl⟩ := scanUnit_eq_ok_iff.1 hunit
    split_ifs at h with htrail hlead
    · obtain ⟨trail, back, hback, htrail', rfl, rfl⟩ := scanTrail_eq_ok_iff.1 h
      have hpair := CharSpelledAs.pair hfront hlead hback htrail'
      exact ⟨_, hpair, by simp⟩
    · simp only [Except.ok.injEq, Prod.mk.injEq] at h
      obtain ⟨rfl, rfl⟩ := h
      have hunit := CharSpelledAs.unit hfront (Bool.eq_false_iff.2 hlead)
        (Bool.eq_false_iff.2 htrail)
      exact ⟨front, hunit, rfl⟩
  · cases h

theorem spelledAs_of_scanEscape (h : scanEscape cs = .ok (c, rest)) :
    ∃ front, CharSpelledAs c ('\\' :: front) ∧ cs = front ++ rest := by
  unfold scanEscape at h
  split at h
  case h_9 =>
    obtain ⟨front, hfront, rfl⟩ := spelledAs_of_scanUnicode h
    exact ⟨'u' :: front, hfront, rfl⟩
  case h_10 | h_11 => cases h
  all_goals
    simp only [Except.ok.injEq, Prod.mk.injEq] at h
    obtain ⟨rfl, rfl⟩ := h
    exact ⟨[_], .short (by decide), rfl⟩

/-- What is read up to a closing quote was spelled there. -/
theorem spelledAs_of_scan (h : scan cs = .ok (s, rest)) :
    ∃ front, SpelledAs s front ∧ cs = front ++ '"' :: rest := by
  fun_induction scan cs generalizing s with
  | case1 => cases h
  | case2 after =>
    simp only [Except.ok.injEq, Prod.mk.injEq] at h
    obtain ⟨rfl, rfl⟩ := h
    exact ⟨[], .nil, rfl⟩
  | case3 _ c _ hescape _ ih =>
    obtain ⟨⟨s', after⟩, hscan, hs⟩ := Except.map_eq_ok_iff.1 h
    simp only [Prod.mk.injEq] at hs
    obtain ⟨rfl, rfl⟩ := hs
    obtain ⟨escape, hc, rfl⟩ := spelledAs_of_scanEscape hescape
    obtain ⟨front, hfront, rfl⟩ := ih hscan
    exact ⟨'\\' :: escape ++ front, .cons hc hfront, by simp⟩
  | case4 => cases h
  | case5 => cases h
  | case6 c _ hquote hslash hcontrol ih =>
    obtain ⟨⟨s', after⟩, hscan, hs⟩ := Except.map_eq_ok_iff.1 h
    simp only [Prod.mk.injEq] at hs
    obtain ⟨rfl, rfl⟩ := hs
    obtain ⟨front, hfront, rfl⟩ := ih hscan
    exact ⟨[c] ++ front, .cons (.plain hquote hslash hcontrol) hfront, rfl⟩

/-- An escape is read as its character. -/
theorem scan_escape {cs rest : List Char} {c : Char} (h : scanEscape cs = .ok (c, rest)) :
    scan ('\\' :: cs) = (scan rest).map fun (s, after) => (c :: s, after) := by
  rw [scan]
  simp only [Char.reduceEq, if_false, if_true]
  split
  · rename_i h'
    simp only [h, Except.ok.injEq, Prod.mk.injEq] at h'
    rw [h'.1, h'.2]
  · rename_i h'
    simp [h] at h'

/-- One character is read from any of its spellings, before anything else. -/
theorem scan_of_charSpelledAs (h : CharSpelledAs c front) (rest : List Char) :
    scan (front ++ rest) = (scan rest).map fun (s, after) => (c :: s, after) := by
  cases h with
  | plain hquote hslash hcontrol =>
    rw [List.singleton_append, scan]
    simp only [hquote, hslash, hcontrol, if_false]
  | @short letter _ h =>
    have hescape : scanEscape (letter :: rest) = .ok (c, rest) := by
      simp only [shortEscapes, List.mem_cons, Prod.mk.injEq, List.not_mem_nil, or_false] at h
      rcases h with h | h | h | h | h | h | h | h
      all_goals
        obtain ⟨rfl, rfl⟩ := h
        rfl
    exact scan_escape hescape
  | @unit unit digits h hlead htrail =>
    have hunit : scanUnit (digits ++ rest) = .ok (unit, rest) :=
      scanUnit_eq_ok_iff.2 ⟨digits, h, rfl⟩
    have hescape : scanEscape ('u' :: (digits ++ rest)) = .ok (Char.ofNat unit, rest) := by
      simp only [scanEscape, scanUnicode, hunit, hlead, htrail, Bool.false_eq_true, if_false]
    exact scan_escape hescape
  | @pair lead trail front back hfront hlead hback htrail =>
    have hunit : scanUnit (front ++ '\\' :: 'u' :: (back ++ rest)) =
        .ok (lead, '\\' :: 'u' :: (back ++ rest)) := scanUnit_eq_ok_iff.2 ⟨front, hfront, rfl⟩
    have hpair : scanTrail lead ('\\' :: 'u' :: (back ++ rest)) = .ok (ofPair lead trail, rest) :=
      scanTrail_eq_ok_iff.2 ⟨trail, back, hback, htrail, rfl, rfl⟩
    have hlead' : isTrail lead = false := by
      simp only [isLead, isTrail, Bool.and_eq_true, decide_eq_true_eq, Bool.and_eq_false_iff,
        decide_eq_false_iff_not] at hlead ⊢
      omega
    have hescape : scanEscape ('u' :: (front ++ '\\' :: 'u' :: (back ++ rest))) =
        .ok (ofPair lead trail, rest) := by
      simp only [scanEscape, scanUnicode, hunit, hlead, hlead', Bool.false_eq_true, if_false,
        if_true, hpair]
    have happend : '\\' :: 'u' :: (front ++ '\\' :: 'u' :: back) ++ rest =
        '\\' :: 'u' :: (front ++ '\\' :: 'u' :: (back ++ rest)) := by simp
    rw [happend]
    exact scan_escape hescape

/-- A string is read exactly from its spellings. -/
theorem scan_eq_ok_iff : scan cs = .ok (s, rest) ↔
    ∃ front, SpelledAs s front ∧ cs = front ++ '"' :: rest := by
  refine ⟨spelledAs_of_scan, ?_⟩
  rintro ⟨front, h, rfl⟩
  induction h with
  | nil => simp [scan]
  | cons hc _ ih =>
    rw [List.append_assoc, scan_of_charSpelledAs hc, ih]
    rfl

end Quoted

/-! ### Numerals -/

namespace Numeral
variable {c : Char} {cs digits front rest : List Char}

/-- A run of digits, of which there is one. -/
def IsDigits (cs : List Char) : Prop := cs ≠ [] ∧ ∀ c ∈ cs, c.isDigit = true

/-- How a fraction is spelled, which is nothing if there is none. -/
inductive FractionSpelledAs : List Char → List Char → Prop
  | none : FractionSpelledAs [] []
  | some {digits : List Char} (h : IsDigits digits) : FractionSpelledAs digits ('.' :: digits)

/-- How an exponent is spelled, which is nothing if there is none. -/
inductive ExponentSpelledAs : Option (Bool × List Char) → List Char → Prop
  | none : ExponentSpelledAs none []
  | unsigned {e : Char} {digits : List Char} (he : e = 'e' ∨ e = 'E') (h : IsDigits digits) :
      ExponentSpelledAs (some (false, digits)) (e :: digits)
  | plus {e : Char} {digits : List Char} (he : e = 'e' ∨ e = 'E') (h : IsDigits digits) :
      ExponentSpelledAs (some (false, digits)) (e :: '+' :: digits)
  | minus {e : Char} {digits : List Char} (he : e = 'e' ∨ e = 'E') (h : IsDigits digits) :
      ExponentSpelledAs (some (true, digits)) (e :: '-' :: digits)

/-- How a sign is spelled. -/
def signText (negative : Bool) : List Char := if negative then ['-'] else []

/-- How a numeral is spelled.  Its whole part begins with a zero only if it is zero. -/
inductive SpelledAs : Numeral → List Char → Prop
  | parts {n : Numeral} {fraction exponent : List Char} (hwhole : IsDigits n.whole)
      (hzero : n.whole.head? = some '0' → n.whole = ['0'])
      (hfraction : FractionSpelledAs n.fraction fraction)
      (hexponent : ExponentSpelledAs n.exponent exponent) :
      SpelledAs n (signText n.negative ++ (n.whole ++ (fraction ++ exponent)))

/-- Nothing at the front of a text goes on with a run of digits. -/
def EndsDigits (rest : List Char) : Prop := ∀ c ∈ rest.head?, c.isDigit = false

/-- Nothing at the front of a text goes on with a numeral. -/
def Ends (rest : List Char) : Prop :=
  ∀ c ∈ rest.head?, c.isDigit = false ∧ c ≠ '.' ∧ c ≠ 'e' ∧ c ≠ 'E'

theorem scanDigits_eq_ok_iff : scanDigits cs = .ok (digits, rest) ↔
    IsDigits digits ∧ EndsDigits rest ∧ cs = digits ++ rest := by
  constructor
  · intro h
    have hends : EndsDigits (cs.dropWhile Char.isDigit) := by
      intro c hc
      have hhead := List.head?_dropWhile_not Char.isDigit cs
      rw [Option.mem_def.1 hc] at hhead
      exact hhead
    have hall : ∀ c ∈ cs.takeWhile Char.isDigit, c.isDigit = true :=
      List.all_eq_true.1 List.all_takeWhile
    unfold scanDigits at h
    split at h
    · cases h
    · cases h
    · rename_i hnil hcons
      simp only [Except.ok.injEq, Prod.mk.injEq] at h
      obtain ⟨rfl, rfl⟩ := h
      have hne : cs.takeWhile Char.isDigit ≠ [] := by
        intro hempty
        cases hrest : cs.dropWhile Char.isDigit with
        | nil => exact hnil hempty hrest
        | cons c r => exact hcons c r hempty hrest
      exact ⟨⟨hne, hall⟩, hends, List.takeWhile_append_dropWhile.symm⟩
  · rintro ⟨⟨hne, hall⟩, hends, rfl⟩
    have hrest : rest.takeWhile Char.isDigit = [] ∧ rest.dropWhile Char.isDigit = rest := by
      cases rest with
      | nil => exact ⟨rfl, rfl⟩
      | cons c rest => simp [hends c rfl]
    rw [scanDigits, List.takeWhile_append_of_pos hall, List.dropWhile_append_of_pos hall, hrest.1,
      hrest.2, List.append_nil]
    split
    · contradiction
    · contradiction
    · rfl

theorem IsDigits.exists_cons (h : IsDigits digits) :
    ∃ d ds, digits = d :: ds ∧ d.isDigit = true := by
  obtain ⟨d, ds, rfl⟩ := List.exists_cons_of_ne_nil h.1
  exact ⟨d, ds, rfl, h.2 d List.mem_cons_self⟩

/-! The parts of a numeral, in order, as they are read. -/

theorem append_of_scanSign (cs : List Char) : cs = signText (scanSign cs).1 ++ (scanSign cs).2 := by
  unfold scanSign
  split
  · rfl
  · rfl

theorem spelledAs_of_scanWhole (h : scanWhole cs = .ok (digits, rest)) :
    IsDigits digits ∧ (digits.head? = some '0' → digits = ['0']) ∧ cs = digits ++ rest := by
  obtain ⟨⟨digits', rest'⟩, hdigits, hchecked⟩ := Except.bind_eq_ok_iff.1 h
  obtain ⟨hsome, _, rfl⟩ := scanDigits_eq_ok_iff.1 hdigits
  dsimp only at hchecked
  split_ifs at hchecked with hzero
  simp only [Except.ok.injEq, Prod.mk.injEq] at hchecked
  obtain ⟨rfl, rfl⟩ := hchecked
  exact ⟨hsome, fun hhead => Decidable.byContradiction fun hne => hzero ⟨hhead, hne⟩, rfl⟩

theorem spelledAs_of_scanFraction (h : scanFraction cs = .ok (digits, rest)) :
    ∃ front, FractionSpelledAs digits front ∧ cs = front ++ rest := by
  unfold scanFraction at h
  split at h
  · obtain ⟨hsome, _, rfl⟩ := scanDigits_eq_ok_iff.1 h
    exact ⟨'.' :: digits, .some hsome, rfl⟩
  · simp only [Except.ok.injEq, Prod.mk.injEq] at h
    obtain ⟨rfl, rfl⟩ := h
    exact ⟨[], .none, rfl⟩

theorem spelledAs_of_scanExponent {exponent : Option (Bool × List Char)}
    (h : scanExponent cs = .ok (exponent, rest)) :
    ∃ front, ExponentSpelledAs exponent front ∧ cs = front ++ rest := by
  unfold scanExponent at h
  split at h
  · split_ifs at h with he
    · split at h
      all_goals
        obtain ⟨⟨digits, rest'⟩, hdigits, hexponent⟩ := Except.map_eq_ok_iff.1 h
        simp only [Prod.mk.injEq] at hexponent
        obtain ⟨rfl, rfl⟩ := hexponent
        obtain ⟨hsome, _, hcs⟩ := scanDigits_eq_ok_iff.1 hdigits
        rw [hcs]
      · exact ⟨_, .plus he hsome, rfl⟩
      · exact ⟨_, .minus he hsome, rfl⟩
      · exact ⟨_, .unsigned he hsome, rfl⟩
    · simp only [Except.ok.injEq, Prod.mk.injEq] at h
      obtain ⟨rfl, rfl⟩ := h
      exact ⟨[], .none, rfl⟩
  · simp only [Except.ok.injEq, Prod.mk.injEq] at h
    obtain ⟨rfl, rfl⟩ := h
    exact ⟨[], .none, rfl⟩

theorem spelledAs_of_scan {n : Numeral} (h : scan cs = .ok (n, rest)) :
    ∃ front, n.SpelledAs front ∧ cs = front ++ rest := by
  have happend := append_of_scanSign cs
  unfold scan at h
  generalize scanSign cs = sign at h happend
  obtain ⟨⟨whole, afterWhole⟩, hwhole, h⟩ := Except.bind_eq_ok_iff.1 h
  obtain ⟨⟨fraction, afterFraction⟩, hfraction, h⟩ := Except.bind_eq_ok_iff.1 h
  obtain ⟨⟨exponent, afterExponent⟩, hexponent, h⟩ := Except.bind_eq_ok_iff.1 h
  have hresult := Except.ok.inj h
  simp only [Prod.mk.injEq] at hresult
  obtain ⟨rfl, rfl⟩ := hresult
  obtain ⟨hdigits, hzero, hsign⟩ := spelledAs_of_scanWhole hwhole
  obtain ⟨fractionText, hfractionText, rfl⟩ := spelledAs_of_scanFraction hfraction
  obtain ⟨exponentText, hexponentText, rfl⟩ := spelledAs_of_scanExponent hexponent
  refine ⟨_, .parts hdigits hzero hfractionText hexponentText, ?_⟩
  rw [happend, hsign]
  simp only [List.append_assoc]

/-! The parts of a numeral, from the last to the first, as they are spelled before something that
does not go on with them. -/

theorem scanExponent_of_spelledAs {exponent : Option (Bool × List Char)}
    (h : ExponentSpelledAs exponent front) (hrest : Ends rest) :
    scanExponent (front ++ rest) = .ok (exponent, rest) := by
  have hdigits {digits : List Char} (h : IsDigits digits) :
      scanDigits (digits ++ rest) = .ok (digits, rest) :=
    scanDigits_eq_ok_iff.2 ⟨h, fun c hc => (hrest c hc).1, rfl⟩
  cases h with
  | none =>
    rw [List.nil_append]
    unfold scanExponent
    split
    · rename_i c rest'
      obtain ⟨_, _, hlower, hupper⟩ := hrest c rfl
      rw [if_neg (not_or.2 ⟨hlower, hupper⟩)]
    · rfl
  | @unsigned e digits he hsome =>
    obtain ⟨d, ds, hds, hd⟩ := hsome.exists_cons
    have hsign {sign : Char} (hsign : sign.isDigit = false) :
        ∀ tail, digits ++ rest = sign :: tail → False := by
      intro tail heq
      rw [hds, List.cons_append] at heq
      obtain ⟨rfl, _⟩ := List.cons.inj heq
      exact Bool.noConfusion (hd.symm.trans hsign)
    rw [List.cons_append, scanExponent, if_pos he, hdigits hsome]
    · rfl
    · exact hsign rfl
    · exact hsign rfl
  | @plus e digits he hsome =>
    have hunfold : scanExponent (e :: '+' :: (digits ++ rest)) =
        (scanDigits (digits ++ rest)).map fun (digits, rest) => (some (false, digits), rest) :=
      if_pos he
    rw [List.cons_append, List.cons_append, hunfold, hdigits hsome]
    rfl
  | @minus e digits he hsome =>
    have hunfold : scanExponent (e :: '-' :: (digits ++ rest)) =
        (scanDigits (digits ++ rest)).map fun (digits, rest) => (some (true, digits), rest) :=
      if_pos he
    rw [List.cons_append, List.cons_append, hunfold, hdigits hsome]
    rfl

theorem ends_exponent {exponent : Option (Bool × List Char)}
    (h : ExponentSpelledAs exponent front) (hrest : Ends rest) :
    ∀ c ∈ (front ++ rest).head?, c.isDigit = false ∧ c ≠ '.' := by
  intro c hc
  cases h with
  | none => exact ⟨(hrest c hc).1, (hrest c hc).2.1⟩
  | unsigned he _ | plus he _ | minus he _ =>
    obtain rfl := Option.some.inj hc
    rcases he with rfl | rfl <;> exact ⟨rfl, by decide⟩

theorem scanFraction_of_spelledAs (h : FractionSpelledAs digits front)
    (hrest : ∀ c ∈ rest.head?, c.isDigit = false ∧ c ≠ '.') :
    scanFraction (front ++ rest) = .ok (digits, rest) := by
  cases h with
  | none =>
    rw [List.nil_append]
    unfold scanFraction
    split
    · exact absurd rfl (hrest '.' rfl).2
    · rfl
  | some hsome => exact scanDigits_eq_ok_iff.2 ⟨hsome, fun c hc => (hrest c hc).1, rfl⟩

theorem ends_fraction (h : FractionSpelledAs digits front)
    (hrest : ∀ c ∈ rest.head?, c.isDigit = false ∧ c ≠ '.') : EndsDigits (front ++ rest) := by
  intro c hc
  cases h with
  | none => exact (hrest c hc).1
  | some _ =>
    obtain rfl := Option.some.inj hc
    rfl

theorem scanWhole_of_isDigits (h : IsDigits digits)
    (hzero : digits.head? = some '0' → digits = ['0']) (hrest : EndsDigits rest) :
    scanWhole (digits ++ rest) = .ok (digits, rest) := by
  have hscan : scanDigits (digits ++ rest) = .ok (digits, rest) :=
    scanDigits_eq_ok_iff.2 ⟨h, hrest, rfl⟩
  rw [scanWhole, hscan]
  exact if_neg fun hboth => hboth.2 (hzero hboth.1)

theorem scanSign_append (negative : Bool) (h : IsDigits digits) (rest : List Char) :
    scanSign (signText negative ++ (digits ++ rest)) = (negative, digits ++ rest) := by
  cases negative with
  | true => rfl
  | false =>
    obtain ⟨d, ds, rfl, hd⟩ := h.exists_cons
    unfold scanSign
    split
    · rename_i hminus
      obtain ⟨rfl, _⟩ := List.cons.inj hminus
      exact absurd hd (by decide)
    · rfl

/-- A numeral begins with its sign or with a digit. -/
theorem SpelledAs.exists_cons {n : Numeral} (h : n.SpelledAs front) :
    ∃ c cs, front = c :: cs ∧ (c = '-' ∨ c.isDigit = true) := by
  cases h with
  | parts hwhole _ _ _ =>
    cases n.negative with
    | true => exact ⟨'-', _, rfl, Or.inl rfl⟩
    | false =>
      obtain ⟨d, ds, hds, hd⟩ := hwhole.exists_cons
      rw [hds]
      exact ⟨d, _, rfl, Or.inr hd⟩

/-- A numeral is read from any of its spellings, before something that does not go on with it. -/
theorem scan_of_spelledAs {n : Numeral} (h : n.SpelledAs front) (hrest : Ends rest) :
    scan (front ++ rest) = .ok (n, rest) := by
  cases h with
  | @parts fraction exponent hwhole hzero hfraction hexponent =>
    have hafter := ends_exponent hexponent hrest
    have happend : signText n.negative ++ (n.whole ++ (fraction ++ exponent)) ++ rest =
        signText n.negative ++ (n.whole ++ (fraction ++ (exponent ++ rest))) := by simp
    rw [happend, scan, scanSign_append n.negative hwhole]
    simp only [scanWhole_of_isDigits hwhole hzero (ends_fraction hfraction hafter),
      scanFraction_of_spelledAs hfraction hafter, scanExponent_of_spelledAs hexponent hrest,
      Except.ok_bind]
    rfl

end Numeral

end AccessPolicy.Json
