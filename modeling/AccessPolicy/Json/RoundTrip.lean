import AccessPolicy.Json.Reader
import AccessPolicy.Proofs.SpelledTokens

/-!
# Written values are read back

The compact text of a value is read as that value, provided that its numbers are integers of 64
bits (`Json.Integral`) and that it does not have more arrays and objects in one another
(`Json.depth`) than the reader lets be open (`read_text`).

The proof follows the two halves of the reader.  The compact text is one of the spellings of the
value (`spelledAs_text`), so it is split into the tokens of the value.  And the tokens of a value
lead from any place where the value may stand to the place after it (`steps_tokens`).
-/

namespace AccessPolicy.Json

/-! ### Strings -/

namespace Quoted

theorem hexValue?_hexDigit : ∀ n < 16, hexValue? (hexDigit n) = some n := by decide

/-- The escape of a control character is written with its code. -/
theorem unitSpelledAs_control {c : Char} (hc : c.toNat < 32) :
    UnitSpelledAs c.toNat ['0', '0', hexDigit (c.toNat / 16), hexDigit (c.toNat % 16)] := by
  have hzero : hexValue? '0' = some 0 := by decide
  have hvalue : ((0 * 16 + 0) * 16 + c.toNat / 16) * 16 + c.toNat % 16 = c.toNat := by omega
  have hunit := UnitSpelledAs.digits hzero hzero (hexValue?_hexDigit (c.toNat / 16) (by omega))
    (hexValue?_hexDigit (c.toNat % 16) (by omega))
  rwa [hvalue] at hunit

/-- A character is written in one of its spellings. -/
theorem charSpelledAs_encodeChar (c : Char) : CharSpelledAs c (encodeChar c) := by
  unfold encodeChar
  split_ifs with hquote hslash hback hfeed hline hreturn htab hcontrol
  -- the characters with a short escape
  iterate 7 exact .short (by subst c; decide)
  · have hlead : isLead c.toNat = false := by simp [isLead]; omega
    have htrail : isTrail c.toNat = false := by simp [isTrail]; omega
    have hunit := CharSpelledAs.unit (unitSpelledAs_control hcontrol) hlead htrail
    rwa [Char.ofNat_toNat] at hunit
  · exact .plain hquote hslash fun hlt => hcontrol hlt

theorem spelledAs_encode (s : List Char) : SpelledAs s (encode s) := by
  induction s with
  | nil => exact .nil
  | cons c s ih =>
    rw [encode, List.flatMap_cons]
    exact .cons (charSpelledAs_encodeChar c) ih

end Quoted

/-! ### Integers -/

namespace Numeral

theorem digitsOf_isDigit {n : Nat} {c : Char} (h : c ∈ digitsOf n) : c.isDigit = true :=
  Nat.isDigit_of_mem_toDigits (by decide) (by decide) h

@[simp] theorem natOf_digitsOf (n : Nat) : natOf (digitsOf n) = n := Nat.ofDigitChars_ten_toDigits

/-- Only the number zero is written with a zero in front. -/
theorem digitsOf_eq_zero {n : Nat} (h : (digitsOf n).head? = some '0') : digitsOf n = ['0'] := by
  induction n using Nat.strongRecOn with
  | ind n ih =>
    by_cases hn : n < 10
    · rw [digitsOf, Nat.toDigits_of_lt_base hn] at h ⊢
      simpa using h
    · have hlt : n / 10 < n := by omega
      have hhead : (digitsOf (n / 10)).head? = some '0' := by
        rw [digitsOf, Nat.toDigits_of_base_le (by decide) (by omega), List.head?_append] at h
        cases hd : Nat.toDigits 10 (n / 10) with
        | nil => exact absurd hd Nat.toDigits_ne_nil
        | cons c cs => simpa [digitsOf, hd] using h
      have hzero := natOf_digitsOf (n / 10)
      rw [ih _ hlt hhead] at hzero
      have : natOf ['0'] = 0 := rfl
      omega

/-- The numeral of an integer. -/
def ofInt (i : Int) : Numeral := ⟨decide (i < 0), digitsOf i.natAbs, [], none⟩

theorem spelledAs_intText (i : Int) : (ofInt i).SpelledAs (Number.int i).text := by
  have hdigits : IsDigits (digitsOf i.natAbs) :=
    ⟨Nat.toDigits_ne_nil, fun c hc => digitsOf_isDigit hc⟩
  have hspelled : (ofInt i).SpelledAs
      (signText (decide (i < 0)) ++ (digitsOf i.natAbs ++ ([] ++ []))) :=
    .parts hdigits digitsOf_eq_zero .none .none
  simpa only [signText, decide_eq_true_eq, List.append_nil, Number.text] using hspelled

/-- An integer of 64 bits, signed or unsigned. -/
def InRange (i : Int) : Prop := -(twoTo 63 : Int) ≤ i ∧ i < (twoTo 64 : Int)

theorem number?_ofInt {i : Int} (h : InRange i) : (ofInt i).number? = some (.int i) := by
  have hint : (ofInt i).int? = some i := by
    obtain ⟨hlo, hhi⟩ := h
    simp only [ofInt, int?, natOf_digitsOf, and_self, if_true, decide_eq_true_eq]
    split
    · rw [if_pos (by omega)]
      congr 1
      omega
    · rw [if_pos (by omega)]
      congr 1
      omega
  rw [number?, hint]

end Numeral

/-! ### Tokens -/

namespace Token

/-- A number that is an integer of 64 bits, or no number at all. -/
def Integral : Token → Prop
  | .number (.int i) => Numeral.InRange i
  | .number (.double _) => False
  | _ => True

/-- A token is written in one of its spellings. -/
theorem spelledAs_spell {t : Token} (ht : t.Integral) : t.SpelledAs t.spell := by
  cases t with
  | number n =>
    cases n with
    | double => exact ht.elim
    | int i => exact .number (Numeral.spelledAs_intText i) (Numeral.number?_ofInt ht)
  | string s =>
    have hspelled := SpelledAs.string (Quoted.spelledAs_encode s.toList)
    rwa [String.ofList_toList] at hspelled
  | bool b => cases b <;> constructor
  | _ => constructor

end Token

/-- Tokens in a row are written without blanks. -/
theorem rowSpelledAs_flatMap_spell {tokens : List Token} (h : ∀ t ∈ tokens, t.Integral) :
    RowSpelledAs tokens (tokens.flatMap Token.spell) := by
  have hblanks : Blanks [] := fun _ hc => absurd hc List.not_mem_nil
  induction tokens with
  | nil => exact .nil hblanks
  | cons t tokens ih =>
    obtain ⟨ht, htokens⟩ := List.forall_mem_cons.1 h
    rw [List.flatMap_cons]
    exact .cons hblanks (Token.spelledAs_spell ht) (ih htokens)

/-! ### Values -/

mutual

/-- All numbers in a value are integers of 64 bits. -/
def Integral : Json → Prop
  | .number (.int i) => Numeral.InRange i
  | .number (.double _) => False
  | .array items => IntegralItems items
  | .object members => IntegralMembers members
  | .null | .bool _ | .string _ => True

/-- All numbers in the items are integers of 64 bits. -/
def IntegralItems : List Json → Prop
  | [] => True
  | v :: rest => Integral v ∧ IntegralItems rest

/-- All numbers in the members are integers of 64 bits. -/
def IntegralMembers : List (String × Json) → Prop
  | [] => True
  | (_, v) :: rest => Integral v ∧ IntegralMembers rest

end

mutual

/-- How many arrays and objects are in one another. -/
def depth : Json → Nat
  | .array items => depthOfItems items + 1
  | .object members => depthOfMembers members + 1
  | .null | .bool _ | .number _ | .string _ => 0

/-- The greatest depth of the items. -/
def depthOfItems : List Json → Nat
  | [] => 0
  | v :: rest => max (depth v) (depthOfItems rest)

/-- The greatest depth of the members. -/
def depthOfMembers : List (String × Json) → Nat
  | [] => 0
  | (_, v) :: rest => max (depth v) (depthOfMembers rest)

end

mutual

/-- The numbers among the tokens of a value are those in the value. -/
theorem integral_tokens : (v : Json) → v.Integral → ∀ t ∈ v.tokens, t.Integral
  | .null, _ | .bool _, _ | .string _, _ | .array [], _ | .object [], _ => by
    simp [tokens, Token.Integral]
  | .number (.int _), h => List.forall_mem_singleton.2 h
  | .number (.double _), h => h.elim
  | .array (v :: items), h => by
    simp only [tokens, List.cons_append, List.forall_mem_cons, List.forall_mem_append]
    exact ⟨trivial, integral_tokens v h.1, integral_furtherItems items h.2⟩
  | .object ((_, v) :: members), h => by
    simp only [tokens, List.cons_append, List.forall_mem_cons, List.forall_mem_append]
    exact ⟨trivial, trivial, trivial, integral_tokens v h.1, integral_furtherMembers members h.2⟩

theorem integral_furtherItems : (items : List Json) → IntegralItems items →
    ∀ t ∈ furtherItems items, t.Integral
  | [], _ => List.forall_mem_singleton.2 trivial
  | v :: items, h => by
    simp only [furtherItems, List.cons_append, List.forall_mem_cons, List.forall_mem_append]
    exact ⟨trivial, integral_tokens v h.1, integral_furtherItems items h.2⟩

theorem integral_furtherMembers : (members : List (String × Json)) → IntegralMembers members →
    ∀ t ∈ furtherMembers members, t.Integral
  | [], _ => List.forall_mem_singleton.2 trivial
  | (_, v) :: members, h => by
    simp only [furtherMembers, List.cons_append, List.forall_mem_cons, List.forall_mem_append]
    exact ⟨trivial, trivial, trivial, integral_tokens v h.1, integral_furtherMembers members h.2⟩

end

/-- The compact text of a value is one of its spellings. -/
theorem spelledAs_text {v : Json} (h : v.Integral) : v.SpelledAs v.text := by
  rw [SpelledAs, text, String.toList_ofList]
  exact rowSpelledAs_flatMap_spell (integral_tokens v h)

/-! ### Shapes -/

namespace Shape
variable {shape : Shape}

/-- A value is of a shape. -/
def Holds : Shape → Json → Prop
  | .any, _ => True
  | .string, .string _ => True
  | .array shape, .array items => ∀ v ∈ items, shape.Holds v
  | .object shape, .object members => ∀ member ∈ members, shape.Holds member.2
  | _, _ => False

theorem Holds.exists_items? {items : List Json} (h : shape.Holds (.array items)) :
    ∃ inner, shape.items? = some inner ∧ ∀ v ∈ items, inner.Holds v := by
  cases shape with
  | any => exact ⟨.any, rfl, fun _ _ => trivial⟩
  | array inner => exact ⟨inner, rfl, h⟩
  | string | object => exact h.elim

theorem Holds.exists_values? {members : Members} (h : shape.Holds (.object members)) :
    ∃ inner, shape.values? = some inner ∧ ∀ member ∈ members, inner.Holds member.2 := by
  cases shape with
  | any => exact ⟨.any, rfl, fun _ _ => trivial⟩
  | object inner => exact ⟨inner, rfl, h⟩
  | string | array => exact h.elim

end Shape

/-! ### Reading tokens -/

section
open Position
variable {limit : Nat}

/-- Reads a row of tokens. -/
def steps (limit : Nat) (position : Position) (tokens : List Token) : Except Fault Position :=
  tokens.foldlM (step limit) position

theorem steps_cons {p q : Position} {t : Token} (h : step limit p t = .ok q) (ts : List Token) :
    steps limit p (t :: ts) = steps limit q ts := by
  simp [steps, h]

/-- A scalar of the shape that is asked for leads to the place after it. -/
theorem steps_scalar {outer : List Frame} {shape : Shape} {t : Token} {v : Json}
    (ht : t.scalar? = some v) (h : shape.Holds v) (ts : List Token) :
    steps limit (.atValue outer shape) (t :: ts) = steps limit (complete outer v) ts := by
  have hadmits : shape.admits v = true := by
    cases shape with
    | any => rfl
    | _ => cases t <;> cases ht <;> first | rfl | exact h.elim
  have hstep : step limit (.atValue outer shape) t = .ok (complete outer v) := by
    cases t <;> cases ht <;> exact if_pos hadmits
  exact steps_cons hstep ts

/-- What does not end an array is the first item of it, which is read like any other value. -/
theorem step_firstItem {outer : List Frame} {shape : Shape} {t : Token} (ht : t ≠ .closeArray) :
    step limit (.atItemOrEnd outer shape) t =
      step limit (.atValue (.items shape [] :: outer) shape) t := by
  cases t <;> first | rfl | exact absurd rfl ht

theorem steps_firstItem (outer : List Frame) (shape : Shape) (v : Json) (ts : List Token) :
    steps limit (.atItemOrEnd outer shape) (v.tokens ++ ts) =
      steps limit (.atValue (.items shape [] :: outer) shape) (v.tokens ++ ts) := by
  have hfirst : ∃ t ts', v.tokens = t :: ts' ∧ t ≠ .closeArray := by
    match v with
    | .null | .bool _ | .number _ | .string _ | .array [] | .array (_ :: _) | .object []
    | .object ((_, _) :: _) => exact ⟨_, _, rfl, by simp⟩
  obtain ⟨t, ts', htokens, ht⟩ := hfirst
  simp only [htokens, steps, List.cons_append, List.foldlM_cons, step_firstItem ht]

theorem step_openArray {outer : List Frame} {shape inner : Shape}
    (hinner : shape.items? = some inner) (h : outer.length < limit) :
    step limit (.atValue outer shape) .openArray = .ok (.atItemOrEnd outer inner) := by
  simp only [step, begin, hinner, if_pos h]

theorem step_openObject {outer : List Frame} {shape inner : Shape}
    (hinner : shape.values? = some inner) (h : outer.length < limit) :
    step limit (.atValue outer shape) .openObject = .ok (.atNameOrEnd outer inner) := by
  simp only [step, begin, hinner, if_pos h]

mutual

/-- The tokens of a value lead from where a value of its shape is expected to the place after it. -/
theorem steps_tokens : (v : Json) → (outer : List Frame) → (shape : Shape) → shape.Holds v →
    outer.length + v.depth ≤ limit → (ts : List Token) →
    steps limit (.atValue outer shape) (v.tokens ++ ts) = steps limit (complete outer v) ts
  | .null, _, _, hv, _, ts => steps_scalar rfl hv ts
  | .bool _, _, _, hv, _, ts => steps_scalar rfl hv ts
  | .number _, _, _, hv, _, ts => steps_scalar rfl hv ts
  | .string _, _, _, hv, _, ts => steps_scalar rfl hv ts
  | .array [], outer, shape, hv, h, ts => by
    obtain ⟨inner, hinner, _⟩ := hv.exists_items?
    simp only [depth] at h
    rw [tokens, List.cons_append, steps_cons (step_openArray hinner (by omega)), List.cons_append,
      steps_cons rfl, List.nil_append]
  | .array (v :: items), outer, shape, hv, h, ts => by
    obtain ⟨inner, hinner, hparts⟩ := hv.exists_items?
    obtain ⟨hfirst, hitems⟩ := List.forall_mem_cons.1 hparts
    simp only [depth, depthOfItems] at h
    rw [tokens, List.cons_append, List.cons_append,
      steps_cons (step_openArray hinner (by omega)), List.append_assoc, steps_firstItem,
      steps_tokens v _ inner hfirst (by simp only [List.length_cons]; omega)]
    exact steps_furtherItems items outer inner [v] hitems (by omega) ts
  | .object [], outer, shape, hv, h, ts => by
    obtain ⟨inner, hinner, _⟩ := hv.exists_values?
    simp only [depth] at h
    rw [tokens, List.cons_append, steps_cons (step_openObject hinner (by omega)), List.cons_append,
      steps_cons rfl, List.nil_append]
  | .object ((k, v) :: members), outer, shape, hv, h, ts => by
    obtain ⟨inner, hinner, hparts⟩ := hv.exists_values?
    obtain ⟨hfirst, hmembers⟩ := List.forall_mem_cons.1 hparts
    simp only [depth, depthOfMembers] at h
    simp only [tokens, List.cons_append, List.append_assoc]
    rw [steps_cons (step_openObject hinner (by omega)), steps_cons rfl, steps_cons rfl,
      steps_tokens v _ inner hfirst (by simp only [List.length_cons]; omega)]
    exact steps_furtherMembers members outer inner [(k, v)] hmembers (by omega) ts

theorem steps_furtherItems : (items : List Json) → (outer : List Frame) → (shape : Shape) →
    (before : List Json) → (∀ v ∈ items, shape.Holds v) →
    outer.length + depthOfItems items + 1 ≤ limit → (ts : List Token) →
    steps limit (.afterItem outer shape before) (furtherItems items ++ ts) =
      steps limit (complete outer (.array (before.reverse ++ items))) ts
  | [], _, _, _, _, _, ts => by
    rw [List.append_nil]
    exact steps_cons rfl ts
  | v :: items, outer, shape, before, hparts, h, ts => by
    obtain ⟨hfirst, hitems⟩ := List.forall_mem_cons.1 hparts
    simp only [depthOfItems] at h
    rw [furtherItems, List.cons_append, List.cons_append, steps_cons rfl, List.append_assoc,
      steps_tokens v _ shape hfirst (by simp only [List.length_cons]; omega)]
    refine (steps_furtherItems items outer shape (v :: before) hitems (by omega) ts).trans ?_
    simp

theorem steps_furtherMembers : (members : List (String × Json)) → (outer : List Frame) →
    (shape : Shape) → (before : List (String × Json)) →
    (∀ member ∈ members, shape.Holds member.2) →
    outer.length + depthOfMembers members + 1 ≤ limit → (ts : List Token) →
    steps limit (.afterMember outer shape before) (furtherMembers members ++ ts) =
      steps limit (complete outer (.object (before.reverse ++ members))) ts
  | [], _, _, _, _, _, ts => by
    rw [List.append_nil]
    exact steps_cons rfl ts
  | (k, v) :: members, outer, shape, before, hparts, h, ts => by
    obtain ⟨hfirst, hmembers⟩ := List.forall_mem_cons.1 hparts
    simp only [depthOfMembers] at h
    simp only [furtherMembers, List.cons_append, List.append_assoc]
    rw [steps_cons rfl, steps_cons rfl, steps_cons rfl,
      steps_tokens v _ shape hfirst (by simp only [List.length_cons]; omega)]
    refine (steps_furtherMembers members outer shape ((k, v) :: before) hmembers (by omega)
      ts).trans ?_
    simp

end

end

/-- A text that is split into the tokens of a value is read as the value, where a value of its shape
is asked for. -/
theorem read_of_ofChars {v : Json} {text : String}
    (h : Lexed.ofChars text.toList = ⟨v.tokens, none⟩) {limit : Nat} (hdepth : v.depth ≤ limit)
    {shape : Shape} (hshape : shape.Holds v) : read limit shape text = .ok v := by
  have hsteps : steps limit (.atValue [] shape) (v.tokens ++ []) = steps limit (.done v) [] :=
    steps_tokens v [] shape hshape (by simpa using hdepth) []
  rw [List.append_nil] at hsteps
  rw [read, h]
  change (steps limit (.atValue [] shape) v.tokens).bind _ = _
  rw [hsteps]
  rfl

/-- The compact text of a value is read as the value. -/
theorem read_text {v : Json} (h : v.Integral) {limit : Nat} (hdepth : v.depth ≤ limit) :
    read limit .any v.text = .ok v :=
  read_of_ofChars (ofChars_eq_tokens_iff.2 (spelledAs_text h)) hdepth trivial

end AccessPolicy.Json
