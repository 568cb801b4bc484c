import AccessPolicy.Json.Writer
import AccessPolicy.Proofs.Spellings

/-!
# The spellings of a value

A value has one compact text and many others: blanks may stand between its tokens, and the tokens
themselves have more than one spelling.  `Json.SpelledAs v text` says that a text is one of them.

The tokens of a text are found one after the other, so each of them has to end before the next one.
Only numerals can go on, and they do not in the text of a value, as its numbers are always followed
by a comma, by a closing bracket or by nothing (`separated_tokens`).

Main statement: a text is split into the tokens of a value, without a defect, exactly if it is one
of the spellings of the value (`ofChars_eq_tokens_iff`).
-/

namespace AccessPolicy.Json

/-! ### Tokens -/

namespace Token
variable {t : Token} {c : Char} {cs front rest : List Char}

/-- How a token is spelled. -/
inductive SpelledAs : Token → List Char → Prop
  | openArray : SpelledAs .openArray ['[']
  | closeArray : SpelledAs .closeArray [']']
  | openObject : SpelledAs .openObject ['{']
  | closeObject : SpelledAs .closeObject ['}']
  | comma : SpelledAs .comma [',']
  | colon : SpelledAs .colon [':']
  | null : SpelledAs .null ['n', 'u', 'l', 'l']
  | true : SpelledAs (.bool true) ['t', 'r', 'u', 'e']
  | false : SpelledAs (.bool false) ['f', 'a', 'l', 's', 'e']
  | number {numeral : Numeral} {n : Number} {front : List Char} (h : numeral.SpelledAs front)
      (hn : numeral.number? = some n) : SpelledAs (.number n) front
  | string {s front : List Char} (h : Quoted.SpelledAs s front) :
      SpelledAs (.string (String.ofList s)) ('"' :: (front ++ ['"']))

theorem append_of_scanWord {token : Token} {word : List Char}
    (h : scanWord token word cs = .ok (t, rest)) : t = token ∧ cs = word ++ rest := by
  induction word generalizing cs with
  | nil =>
    simp only [scanWord, Except.ok.injEq, Prod.mk.injEq] at h
    exact ⟨h.1.symm, h.2⟩
  | cons w word ih =>
    cases cs with
    | nil => cases h
    | cons c cs =>
      rw [scanWord] at h
      split_ifs at h with hc
      obtain ⟨ht, rfl⟩ := ih h
      exact ⟨ht, by rw [hc, List.cons_append]⟩

/-- What is taken off the front of a text is a spelling of the token. -/
theorem spelledAs_of_scan (h : scan c cs = .ok (t, rest)) :
    ∃ front, t.SpelledAs (c :: front) ∧ cs = front ++ rest := by
  unfold scan at h
  split at h
  case h_7 =>
    obtain ⟨rfl, rfl⟩ := append_of_scanWord h
    exact ⟨_, .null, rfl⟩
  case h_8 =>
    obtain ⟨rfl, rfl⟩ := append_of_scanWord h
    exact ⟨_, .true, rfl⟩
  case h_9 =>
    obtain ⟨rfl, rfl⟩ := append_of_scanWord h
    exact ⟨_, .false, rfl⟩
  case h_10 =>
    obtain ⟨⟨s, after⟩, hscan, hstring⟩ := Except.map_eq_ok_iff.1 h
    simp only [Prod.mk.injEq] at hstring
    obtain ⟨rfl, rfl⟩ := hstring
    obtain ⟨front, hfront, rfl⟩ := Quoted.scan_eq_ok_iff.1 hscan
    exact ⟨front ++ ['"'], .string hfront, by simp⟩
  case h_11 =>
    split_ifs at h
    split at h
    · rename_i hscan
      split at h
      · rename_i hn
        simp only [Except.ok.injEq, Prod.mk.injEq] at h
        obtain ⟨rfl, rfl⟩ := h
        obtain ⟨front, hfront, happend⟩ := Numeral.spelledAs_of_scan hscan
        obtain ⟨d, front', rfl, _⟩ := hfront.exists_cons
        obtain ⟨rfl, rfl⟩ := List.cons.inj happend
        exact ⟨front', .number hfront hn, rfl⟩
      · cases h
    · cases h
  all_goals
    -- brackets, commas and colons
    simp only [Except.ok.injEq, Prod.mk.injEq] at h
    obtain ⟨rfl, rfl⟩ := h
    exact ⟨[], by constructor, rfl⟩

/-- What follows a token does not go on with it. -/
def EndsBefore (rest : List Char) : Token → Prop
  | .number _ => Numeral.Ends rest
  | _ => True

theorem scan_numeral {c : Char} (cs : List Char) (h : c = '-' ∨ c.isDigit = true) :
    scan c cs =
      match Numeral.scan (c :: cs) with
      | .ok (numeral, rest) =>
        match numeral.number? with
        | some n => .ok (.number n, rest)
        | none => .error .malformed
      | .error fault => .error fault := by
  unfold scan
  split
  case h_11 => exact if_pos h
  all_goals exact absurd h (by decide)

theorem isBlank_eq_false (h : c = '-' ∨ c.isDigit = true) : isBlank c = false := by
  simp only [isBlank, Bool.or_eq_false_iff, decide_eq_false_iff_not]
  refine ⟨⟨⟨?_, ?_⟩, ?_⟩, ?_⟩ <;> rintro rfl <;> exact absurd h (by decide)

/-- A token is read from any of its spellings, before something that does not go on with it. -/
theorem scan_of_spelledAs (h : t.SpelledAs front) (hrest : t.EndsBefore rest) :
    ∃ c cs, front = c :: cs ∧ isBlank c = false ∧ scan c (cs ++ rest) = .ok (t, rest) := by
  cases h with
  | @number numeral n _ h hn =>
    obtain ⟨c, cs, rfl, hc⟩ := h.exists_cons
    have hscan : Numeral.scan (c :: (cs ++ rest)) = .ok (numeral, rest) :=
      Numeral.scan_of_spelledAs h hrest
    refine ⟨c, cs, rfl, isBlank_eq_false hc, ?_⟩
    rw [scan_numeral _ hc, hscan]
    simp only [hn]
  | @string s front h =>
    have hscan : Quoted.scan (front ++ '"' :: rest) = .ok (s, rest) :=
      Quoted.scan_eq_ok_iff.2 ⟨front, h, rfl⟩
    refine ⟨'"', front ++ ['"'], rfl, rfl, ?_⟩
    rw [List.append_assoc, List.singleton_append, scan, hscan]
    rfl
  | _ => exact ⟨_, _, rfl, rfl, rfl⟩

end Token

/-! ### Rows of tokens -/

section
variable {tokens : List Token} {cs blanks rest : List Char}

/-- Characters that stand between tokens. -/
def Blanks (cs : List Char) : Prop := ∀ c ∈ cs, isBlank c = true

/-- How a row of tokens is spelled, with blanks anywhere between them. -/
inductive RowSpelledAs : List Token → List Char → Prop
  | nil {blanks : List Char} (hblanks : Blanks blanks) : RowSpelledAs [] blanks
  | cons {t : Token} {tokens : List Token} {blanks front rest : List Char}
      (hblanks : Blanks blanks) (ht : t.SpelledAs front) (h : RowSpelledAs tokens rest) :
      RowSpelledAs (t :: tokens) (blanks ++ (front ++ rest))

theorem RowSpelledAs.blank {c : Char} (hc : isBlank c = true) (h : RowSpelledAs tokens cs) :
    RowSpelledAs tokens (c :: cs) := by
  cases h with
  | nil hblanks => exact .nil (List.forall_mem_cons.2 ⟨hc, hblanks⟩)
  | cons hblanks ht h =>
    rw [← List.cons_append]
    exact .cons (List.forall_mem_cons.2 ⟨hc, hblanks⟩) ht h

/-- A text that is split without a defect spells the tokens it is split into. -/
theorem spelledAs_of_ofChars (h : (Lexed.ofChars cs).defect = none) :
    RowSpelledAs (Lexed.ofChars cs).tokens cs := by
  fun_induction Lexed.ofChars cs with
  | case1 => exact .nil fun _ hc => absurd hc List.not_mem_nil
  | case2 c cs hc ih => exact (ih h).blank hc
  | case3 c cs _ t rest hscan after ih =>
    obtain ⟨front, hfront, rfl⟩ := Token.spelledAs_of_scan hscan
    have hrow : RowSpelledAs (t :: after.tokens) ([] ++ (c :: front ++ rest)) :=
      .cons (fun _ hc => absurd hc List.not_mem_nil) hfront (ih h)
    exact hrow
  | case4 => cases h

/-- After these tokens nothing goes on with a number before them. -/
def Token.Separates (t : Token) : Prop := t = .comma ∨ t = .closeArray ∨ t = .closeObject

/-- Every number is followed by a token that separates it from what comes then. -/
def Separated : List Token → Prop
  | [] => True
  | .number _ :: tokens => (∀ t ∈ tokens.head?, t.Separates) ∧ Separated tokens
  | _ :: tokens => Separated tokens

theorem ends_of_spelledAs (h : RowSpelledAs tokens cs) (hhead : ∀ t ∈ tokens.head?, t.Separates) :
    Numeral.Ends cs := by
  have hblank {c : Char} (hc : isBlank c = true) :
      c.isDigit = false ∧ c ≠ '.' ∧ c ≠ 'e' ∧ c ≠ 'E' := by
    simp only [isBlank, Bool.or_eq_true, decide_eq_true_eq] at hc
    rcases hc with ((rfl | rfl) | rfl) | rfl <;> decide
  intro c hc
  cases h with
  | nil hblanks => exact hblank (hblanks c (List.mem_of_mem_head? hc))
  | @cons t tokens blanks front rest hblanks ht _ =>
    cases blanks with
    | cons b blanks =>
      obtain rfl := Option.some.inj hc
      exact hblank (hblanks b List.mem_cons_self)
    | nil =>
      rcases hhead t rfl with rfl | rfl | rfl
      all_goals
        cases ht
        obtain rfl := Option.some.inj hc
        decide

theorem ofChars_append_of_blanks (h : Blanks blanks) (rest : List Char) :
    Lexed.ofChars (blanks ++ rest) = Lexed.ofChars rest := by
  induction blanks with
  | nil => rfl
  | cons b blanks ih =>
    obtain ⟨hb, hblanks⟩ := List.forall_mem_cons.1 h
    rw [List.cons_append, Lexed.ofChars, if_pos hb, ih hblanks]

/-- The tokens of a text are the ones that it spells, if its numbers are separated. -/
theorem ofChars_of_spelledAs (h : RowSpelledAs tokens cs) (hseparated : Separated tokens) :
    Lexed.ofChars cs = ⟨tokens, none⟩ := by
  induction h with
  | @nil blanks hblanks =>
    have hofChars := ofChars_append_of_blanks hblanks []
    rw [List.append_nil] at hofChars
    rw [hofChars, Lexed.ofChars]
  | @cons t tokens blanks front rest hblanks ht hrow ih =>
    have hends : t.EndsBefore rest := by
      cases t with
      | number => exact ends_of_spelledAs hrow hseparated.1
      | _ => trivial
    have hrest : Separated tokens := by
      cases t with
      | number => exact hseparated.2
      | _ => exact hseparated
    obtain ⟨c, cs, rfl, hc, hscan⟩ := Token.scan_of_spelledAs ht hends
    rw [ofChars_append_of_blanks hblanks, List.cons_append, Lexed.ofChars,
      if_neg (Bool.eq_false_iff.1 hc)]
    split
    · rename_i hscan'
      rw [hscan, Except.ok.injEq, Prod.mk.injEq] at hscan'
      obtain ⟨rfl, rfl⟩ := hscan'
      rw [ih hrest]
    · rename_i hscan'
      rw [hscan] at hscan'
      cases hscan'

end

/-! ### Values -/

theorem separates_furtherItems (items : List Json) (tokens : List Token) :
    ∀ t ∈ (furtherItems items ++ tokens).head?, t.Separates := by
  intro t ht
  cases items with
  | nil =>
    obtain rfl := Option.some.inj ht
    exact Or.inr (Or.inl rfl)
  | cons v items =>
    obtain rfl := Option.some.inj ht
    exact Or.inl rfl

theorem separates_furtherMembers (members : Members) (tokens : List Token) :
    ∀ t ∈ (furtherMembers members ++ tokens).head?, t.Separates := by
  intro t ht
  cases members with
  | nil =>
    obtain rfl := Option.some.inj ht
    exact Or.inr (Or.inr rfl)
  | cons member members =>
    obtain rfl := Option.some.inj ht
    exact Or.inl rfl

mutual

/-- The tokens of a value are separated, before tokens that separate its last one. -/
theorem separated_tokens : (v : Json) → (ts : List Token) → (∀ t ∈ ts.head?, t.Separates) →
    Separated ts → Separated (v.tokens ++ ts)
  | .null, _, _, h | .bool _, _, _, h | .string _, _, _, h => h
  | .number _, _, hhead, h => ⟨hhead, h⟩
  | .array [], _, _, h | .object [], _, _, h => h
  | .array (v :: items), ts, _, h => by
    rw [tokens, List.cons_append, List.cons_append, List.append_assoc]
    exact separated_tokens v _ (separates_furtherItems items ts) (separated_furtherItems items ts h)
  | .object ((_, v) :: members), ts, _, h => by
    simp only [tokens, List.cons_append, List.append_assoc]
    exact separated_tokens v _ (separates_furtherMembers members ts)
      (separated_furtherMembers members ts h)

theorem separated_furtherItems : (items : List Json) → (ts : List Token) → Separated ts →
    Separated (furtherItems items ++ ts)
  | [], _, h => h
  | v :: items, ts, h => by
    rw [furtherItems, List.cons_append, List.cons_append, List.append_assoc]
    exact separated_tokens v _ (separates_furtherItems items ts) (separated_furtherItems items ts h)

theorem separated_furtherMembers : (members : List (String × Json)) → (ts : List Token) →
    Separated ts → Separated (furtherMembers members ++ ts)
  | [], _, h => h
  | (_, v) :: members, ts, h => by
    simp only [furtherMembers, List.cons_append, List.append_assoc]
    exact separated_tokens v _ (separates_furtherMembers members ts)
      (separated_furtherMembers members ts h)

end

/-- **The grammar of JSON.**  A text spells a value if it is the tokens of the value in a row, each
in one of its spellings, with blanks anywhere between them and nothing else. -/
def SpelledAs (v : Json) (text : String) : Prop := RowSpelledAs v.tokens text.toList

/-- A text is split into the tokens of a value exactly if it spells the value. -/
theorem ofChars_eq_tokens_iff {v : Json} {text : String} :
    Lexed.ofChars text.toList = ⟨v.tokens, none⟩ ↔ v.SpelledAs text := by
  constructor
  · intro h
    have hdefect : (Lexed.ofChars text.toList).defect = none := by rw [h]
    have hrow := spelledAs_of_ofChars hdefect
    rw [h] at hrow
    exact hrow
  · intro h
    have hseparated := separated_tokens v [] (fun t ht => by cases ht) trivial
    rw [List.append_nil] at hseparated
    exact ofChars_of_spelledAs h hseparated

end AccessPolicy.Json
