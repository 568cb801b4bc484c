/-!
# Glob matching

A glob pattern is a text in which `*` stands for any run of characters, the empty one included, `?`
stands for exactly one character and every other character stands for itself.  `accepts` decides
whether a candidate is described by a pattern, over whole texts and with regard to case.

The matcher is greedy.  It walks both texts once and remembers only the last `*` it passed together
with the number of candidate characters consumed when that star began its latest run.  When it gets
stuck it goes back there and lets the star take one character more (`State.retreat?`).

Both positions can move backwards, so the walk ends for a reason that needs the invariant `Valid`:
the last star only ever moves to the right, under one star its run only ever grows, and within one
run the candidate position only ever grows (`State.Valid.progress`).
-/

namespace AccessPolicy.Glob

/-! ### States of the walk -/

/-- Where to go back to: the position of a `*` in the pattern, and how many characters of the
candidate were consumed when its current run ended. -/
structure Retry where
  star : Nat
  consumed : Nat
  deriving DecidableEq

/-- The walk at one moment: the positions in the pattern and in the candidate, and the last `*`
passed, if there was one. -/
structure State where
  patternAt : Nat
  candidateAt : Nat
  retry : Option Retry
  deriving DecidableEq

namespace State

/-- The walk begins at the front of both texts. -/
def start : State := ⟨0, 0, none⟩

/-- One character of the pattern takes one character of the candidate. -/
def advance (s : State) : State :=
  { s with patternAt := s.patternAt + 1, candidateAt := s.candidateAt + 1 }

/-- A `*` is passed with an empty run for now, and remembered. -/
def enterStar (s : State) : State :=
  ⟨s.patternAt + 1, s.candidateAt, some ⟨s.patternAt, s.candidateAt⟩⟩

/-- Back to the last `*`, whose run grows by one character; `none` if no `*` was passed. -/
def retreat? (s : State) : Option State :=
  s.retry.map fun r => ⟨r.star + 1, r.consumed + 1, some ⟨r.star, r.consumed + 1⟩⟩

/-- One move of the walk, where `c` is the next character of the candidate; `none` if the walk is
stuck for good. -/
def step? (pattern : Array Char) (c : Char) (s : State) : Option State :=
  match pattern[s.patternAt]? with
  | some p =>
    if p = '*' then some s.enterStar
    else if p = '?' ∨ p = c then some s.advance
    else s.retreat?
  | none => s.retreat?

/-- The positions are inside their texts, and the remembered star is a star that was passed and
whose run ends no later than the candidate position. -/
structure Valid (pattern candidate : Array Char) (s : State) : Prop where
  patternAt_le : s.patternAt ≤ pattern.size
  candidateAt_le : s.candidateAt ≤ candidate.size
  retry : ∀ r, s.retry = some r →
    pattern[r.star]? = some '*' ∧ r.star < s.patternAt ∧ r.consumed ≤ s.candidateAt

theorem valid_start {pattern candidate : Array Char} : start.Valid pattern candidate :=
  ⟨Nat.zero_le _, Nat.zero_le _, by simp [start]⟩

/-! ### Moves keep the invariant -/

section
variable {pattern candidate : Array Char} {c : Char} {s t : State}

/-- What a move is, by the character of the pattern: a star is entered, a character that takes the
next one of the candidate is passed, and otherwise the walk goes back. -/
theorem step?_eq (pattern : Array Char) (c : Char) (s : State) :
    pattern[s.patternAt]? = some '*' ∧ s.step? pattern c = some s.enterStar ∨
      (∃ p, pattern[s.patternAt]? = some p ∧ p ≠ '*' ∧ (p = '?' ∨ p = c) ∧
        s.step? pattern c = some s.advance) ∨
      (∀ p, pattern[s.patternAt]? = some p → p ≠ '*' ∧ ¬ (p = '?' ∨ p = c)) ∧
        s.step? pattern c = s.retreat? := by
  unfold step?
  split
  · rename_i p hp
    split
    · rename_i hstar
      exact Or.inl ⟨hstar ▸ hp, rfl⟩
    · rename_i hstar
      split
      · rename_i hone
        exact Or.inr (Or.inl ⟨p, hp, hstar, hone, rfl⟩)
      · rename_i hone
        refine Or.inr (Or.inr ⟨fun p' hp' => ?_, rfl⟩)
        obtain rfl := Option.some.inj (hp.symm.trans hp')
        exact ⟨hstar, hone⟩
  · rename_i hnone
    refine Or.inr (Or.inr ⟨fun p hp => ?_, rfl⟩)
    cases hnone.symm.trans hp

/-- The three ways to move. -/
theorem step?_cases (h : s.step? pattern c = some t) :
    pattern[s.patternAt]? = some '*' ∧ t = s.enterStar ∨
      s.patternAt < pattern.size ∧ t = s.advance ∨ s.retreat? = some t := by
  rcases step?_eq pattern c s with ⟨hp, hstep⟩ | ⟨p, hp, _, _, hstep⟩ | ⟨_, hstep⟩
  · exact Or.inl ⟨hp, Option.some.inj (h.symm.trans hstep)⟩
  · have hlt := (Array.getElem?_eq_some_iff.1 hp).1
    exact Or.inr (Or.inl ⟨hlt, Option.some.inj (h.symm.trans hstep)⟩)
  · exact Or.inr (Or.inr (hstep.symm.trans h))

theorem Valid.step? (hs : s.Valid pattern candidate) (hc : s.candidateAt < candidate.size)
    (h : s.step? pattern c = some t) : t.Valid pattern candidate := by
  rcases step?_cases h with ⟨hp, rfl⟩ | ⟨hp, rfl⟩ | h
  · have hlt := (Array.getElem?_eq_some_iff.1 hp).1
    refine ⟨hlt, hs.candidateAt_le, ?_⟩
    rintro r hr
    obtain rfl := Option.some.inj hr
    exact ⟨hp, Nat.lt_succ_self _, Nat.le_refl _⟩
  · refine ⟨hp, hc, fun r hr => ?_⟩
    obtain ⟨hstar, hlt, hle⟩ := hs.retry r hr
    exact ⟨hstar, Nat.lt_succ_of_lt hlt, Nat.le_succ_of_le hle⟩
  · obtain ⟨r, hr, rfl⟩ := Option.map_eq_some_iff.1 h
    obtain ⟨hstar, hlt, hle⟩ := hs.retry r hr
    refine ⟨Nat.le_trans hlt hs.patternAt_le, Nat.lt_of_le_of_lt hle hc, ?_⟩
    rintro r' hr'
    obtain rfl := Option.some.inj hr'
    exact ⟨hstar, Nat.lt_succ_self _, Nat.le_refl _⟩

/-- How far the remembered star lies to the right; 0 if there is none. -/
def starsPassed (s : State) : Nat :=
  match s.retry with
  | some r => r.star + 1
  | none => 0

/-- How many characters the remembered star and what stands before it have consumed. -/
def settled (s : State) : Nat :=
  match s.retry with
  | some r => r.consumed
  | none => 0

/-- What is left to do, as three counts of which the earlier weigh more: pattern right of the
remembered star, candidate right of its run, candidate right of the current position. -/
def remaining (pattern candidate : Array Char) (s : State) : Nat × Nat × Nat :=
  (pattern.size - s.starsPassed, candidate.size - s.settled, candidate.size - s.candidateAt)

/-- Each move leaves less to do. -/
theorem Valid.progress (hs : s.Valid pattern candidate) (hc : s.candidateAt < candidate.size)
    (h : s.step? pattern c = some t) :
    Prod.Lex (· < ·) (Prod.Lex (· < ·) (· < ·))
      (t.remaining pattern candidate) (s.remaining pattern candidate) := by
  rcases step?_cases h with ⟨hp, rfl⟩ | ⟨hp, rfl⟩ | h
  · refine Prod.Lex.left _ _ ?_
    have hlt := (Array.getElem?_eq_some_iff.1 hp).1
    have hpast : s.starsPassed ≤ s.patternAt := by
      unfold starsPassed
      split
      · rename_i r hr
        exact (hs.retry r hr).2.1
      · exact Nat.zero_le _
    simp only [enterStar, starsPassed] at hpast ⊢
    omega
  · refine Prod.Lex.right _ (Prod.Lex.right _ ?_)
    simp only [advance]
    omega
  · obtain ⟨r, hr, rfl⟩ := Option.map_eq_some_iff.1 h
    obtain ⟨_, _, hle⟩ := hs.retry r hr
    simp only [remaining, starsPassed, settled, hr]
    refine Prod.Lex.right _ (Prod.Lex.left _ _ ?_)
    omega

end

end State

/-! ### The matcher -/

/-- Walks on from a valid state to the end of the candidate.  What is left of the pattern there can
only be a row of stars. -/
def run (pattern candidate : Array Char) (s : State) (hs : s.Valid pattern candidate) : Bool :=
  if hc : s.candidateAt < candidate.size then
    match h : s.step? pattern candidate[s.candidateAt] with
    | some t => run pattern candidate t (hs.step? hc h)
    | none => false
  else (pattern.toList.drop s.patternAt).all (· == '*')
termination_by s.remaining pattern candidate
decreasing_by exact hs.progress hc h

/-- Whether the glob `pattern` describes the whole of `candidate`. -/
def accepts (pattern candidate : String) : Bool :=
  run pattern.toList.toArray candidate.toList.toArray State.start State.valid_start

end AccessPolicy.Glob
