/-!
# The language of a glob pattern

`Describes pattern candidate` says what a pattern means without saying how to match it: the
candidate can be cut into consecutive pieces, one for each character of the pattern, such that a
`*` gets any piece, a `?` gets a piece of one character and every other character gets itself.
-/

namespace AccessPolicy.Glob

/-- The candidates that a pattern describes, both as lists of characters. -/
inductive Describes : List Char → List Char → Prop
  | nil : Describes [] []
  | star (piece : List Char) {ps cs : List Char} :
      Describes ps cs → Describes ('*' :: ps) (piece ++ cs)
  | any (c : Char) {ps cs : List Char} :
      Describes ps cs → Describes ('?' :: ps) (c :: cs)
  | literal (c : Char) {ps cs : List Char} (hstar : c ≠ '*') (hany : c ≠ '?') :
      Describes ps cs → Describes (c :: ps) (c :: cs)

/-- Only the empty text is described by the empty pattern. -/
@[simp] theorem describes_nil_iff {cs : List Char} : Describes [] cs ↔ cs = [] :=
  ⟨fun h => by cases h; rfl, fun h => h ▸ .nil⟩

/-- A star takes nothing, or a first character after which it goes on. -/
theorem describes_star_iff {ps cs : List Char} :
    Describes ('*' :: ps) cs ↔
      Describes ps cs ∨ ∃ c rest, cs = c :: rest ∧ Describes ('*' :: ps) rest := by
  constructor
  · intro h
    cases h with
    | star piece h =>
      cases piece with
      | nil => exact Or.inl h
      | cons c piece => exact Or.inr ⟨c, _, rfl, .star piece h⟩
    | literal _ hstar => exact absurd rfl hstar
  · rintro (h | ⟨c, rest, rfl, h⟩)
    · exact .star [] h
    · cases h with
      | star piece h => exact .star (c :: piece) h
      | literal _ hstar => exact absurd rfl hstar

/-- A question mark takes one character, whichever it is. -/
@[simp] theorem describes_any_iff {ps cs : List Char} :
    Describes ('?' :: ps) cs ↔ ∃ c rest, cs = c :: rest ∧ Describes ps rest := by
  constructor
  · intro h
    cases h with
    | any c h => exact ⟨c, _, rfl, h⟩
    | literal _ _ hany => exact absurd rfl hany
  · rintro ⟨c, rest, rfl, h⟩
    exact .any c h

/-- Any other character takes itself. -/
@[simp] theorem describes_literal_iff {p : Char} {ps cs : List Char} (hstar : p ≠ '*')
    (hany : p ≠ '?') :
    Describes (p :: ps) cs ↔ ∃ rest, cs = p :: rest ∧ Describes ps rest := by
  constructor
  · intro h
    cases h with
    | star => exact absurd rfl hstar
    | any => exact absurd rfl hany
    | literal _ _ _ h => exact ⟨_, rfl, h⟩
  · rintro ⟨rest, rfl, h⟩
    exact .literal p hstar hany h

/-! ### Whole patterns -/

/-- A star takes some number of characters from the front. -/
theorem describes_star_iff_drop {ps cs : List Char} :
    Describes ('*' :: ps) cs ↔ ∃ n ≤ cs.length, Describes ps (cs.drop n) := by
  constructor
  · intro h
    cases h with
    | star piece h => exact ⟨piece.length, by simp, by simpa using h⟩
    | literal _ hstar => exact absurd rfl hstar
  · rintro ⟨n, _, h⟩
    rw [← List.take_append_drop n cs]
    exact .star _ h

/-- Two patterns one after the other describe what they describe one after the other. -/
theorem describes_append_iff {ps qs cs : List Char} :
    Describes (ps ++ qs) cs ↔
      ∃ before after, cs = before ++ after ∧ Describes ps before ∧ Describes qs after := by
  constructor
  · intro h
    induction ps generalizing cs with
    | nil => exact ⟨[], cs, rfl, .nil, h⟩
    | cons p ps ih =>
      rw [List.cons_append] at h
      cases h with
      | star piece h =>
        obtain ⟨before, after, rfl, hps, hqs⟩ := ih h
        exact ⟨piece ++ before, after, by simp, .star piece hps, hqs⟩
      | any c h =>
        obtain ⟨before, after, rfl, hps, hqs⟩ := ih h
        exact ⟨c :: before, after, rfl, .any c hps, hqs⟩
      | literal _ hstar hany h =>
        obtain ⟨before, after, rfl, hps, hqs⟩ := ih h
        exact ⟨p :: before, after, rfl, .literal p hstar hany hps, hqs⟩
  · rintro ⟨before, after, rfl, hps, hqs⟩
    induction hps with
    | nil => exact hqs
    | star piece _ ih =>
      rw [List.append_assoc]
      exact .star piece ih
    | any c _ ih => exact .any c ih
    | literal c hstar hany _ ih => exact .literal c hstar hany ih

/-- Where there is no star, each character of the pattern takes one character. -/
theorem Describes.length_eq {ps cs : List Char} (h : Describes ps cs) (hstar : '*' ∉ ps) :
    cs.length = ps.length := by
  induction h with
  | nil => rfl
  | star => exact absurd List.mem_cons_self hstar
  | any _ _ ih => exact congrArg (· + 1) (ih (List.not_mem_of_not_mem_cons hstar))
  | literal _ _ _ _ ih => exact congrArg (· + 1) (ih (List.not_mem_of_not_mem_cons hstar))

/-- A pattern without wildcards describes itself and nothing else. -/
theorem describes_plain_iff {ps cs : List Char} (hstar : '*' ∉ ps) (hany : '?' ∉ ps) :
    Describes ps cs ↔ cs = ps := by
  induction ps generalizing cs with
  | nil => exact describes_nil_iff
  | cons p ps ih =>
    simp only [List.mem_cons, not_or] at hstar hany
    rw [describes_literal_iff (Ne.symm hstar.1) (Ne.symm hany.1)]
    simp only [ih hstar.2 hany.2, exists_eq_right]

/-- Every pattern describes its own text: a wildcard takes itself. -/
@[simp] theorem describes_self (ps : List Char) : Describes ps ps := by
  induction ps with
  | nil => exact .nil
  | cons p ps ih =>
    by_cases hstar : p = '*'
    · subst hstar
      exact .star ['*'] ih
    · by_cases hany : p = '?'
      · subst hany
        exact .any '?' ih
      · exact .literal p hstar hany ih

/-- The empty text is described by rows of stars. -/
theorem describes_empty_iff {ps : List Char} : Describes ps [] ↔ ∀ p ∈ ps, p = '*' := by
  induction ps with
  | nil => simp
  | cons p ps ih =>
    rw [List.forall_mem_cons, ← ih]
    by_cases hstar : p = '*'
    · subst hstar
      rw [describes_star_iff]
      simp
    · -- every other character takes one
      refine iff_of_false (fun h => ?_) (fun h => hstar h.1)
      by_cases hany : p = '?'
      · subst hany
        simp at h
      · simp [hstar, hany] at h

end AccessPolicy.Glob
