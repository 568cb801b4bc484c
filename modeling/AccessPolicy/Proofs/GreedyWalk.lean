import AccessPolicy.Glob.Basic
import AccessPolicy.Glob.Language
import Mathlib.Data.List.Forall2

/-!
# The greedy walk misses no match

The matcher remembers only the last star that it passed and never goes back to an earlier one.  It
still accepts whatever the pattern describes.

A state is promising (`State.Promising`) if the rest of the pattern describes the rest of the
candidate, or would do so after the remembered star has taken more.  Where the walk begins this is
the question that it is to answer, where it ends it is the answer, and no move in between changes it
(`State.Valid.promising_iff`).  So the walk answers the question (`run_eq_true_iff`).

The move in doubt is the one onto another star, which forgets the star before.  Since that one, only
characters were passed that take one character each (`State.InStep`).  A longer run of it would
therefore move all that follows to the right, by as much as the new star can take as well
(`State.InStep.exists_fits`).

Main statement: `accepts_iff_exists_pieces`.
-/

namespace AccessPolicy.Glob

/-! ### From one position on -/

section
variable {pattern candidate : Array Char} {i k : Nat} {p : Char}

/-- The pattern from `i` on describes the candidate from `k` on. -/
def Fits (pattern candidate : Array Char) (i k : Nat) : Prop :=
  Describes (pattern.toList.drop i) (candidate.toList.drop k)

theorem drop_toList_of_getElem? {chars : Array Char} {c : Char} (h : chars[i]? = some c) :
    chars.toList.drop i = c :: chars.toList.drop (i + 1) := by
  obtain ⟨hlt, rfl⟩ := Array.getElem?_eq_some_iff.1 h
  exact List.drop_eq_getElem_cons hlt

theorem fits_star_iff (hp : pattern[i]? = some '*') (hk : k ≤ candidate.size) :
    Fits pattern candidate i k ↔
      ∃ k', k ≤ k' ∧ k' ≤ candidate.size ∧ Fits pattern candidate (i + 1) k' := by
  unfold Fits
  rw [drop_toList_of_getElem? hp, describes_star_iff_drop]
  simp only [List.drop_drop, List.length_drop, Array.length_toList]
  constructor
  · rintro ⟨n, hn, h⟩
    exact ⟨k + n, Nat.le_add_right k n, by omega, h⟩
  · rintro ⟨k', hle, hk', h⟩
    obtain ⟨n, rfl⟩ := Nat.exists_eq_add_of_le hle
    exact ⟨n, by omega, h⟩

theorem fits_one_iff (hp : pattern[i]? = some p) (hstar : p ≠ '*') (hk : k < candidate.size) :
    Fits pattern candidate i k ↔
      (p = '?' ∨ p = candidate[k]) ∧ Fits pattern candidate (i + 1) (k + 1) := by
  have hcandidate := drop_toList_of_getElem? (Array.getElem?_eq_getElem hk)
  unfold Fits
  rw [drop_toList_of_getElem? hp, hcandidate]
  by_cases hany : p = '?'
  · subst hany
    rw [describes_any_iff]
    simp
  · rw [describes_literal_iff hstar hany]
    simp [hany, eq_comm]

/-- Where the character of the pattern neither is a star nor takes the next one of the candidate,
and where the pattern has come to its end, nothing fits. -/
theorem not_fits_of_stuck (hk : k < candidate.size)
    (h : ∀ p, pattern[i]? = some p → p ≠ '*' ∧ ¬ (p = '?' ∨ p = candidate[k])) :
    ¬ Fits pattern candidate i k := by
  cases hp : pattern[i]? with
  | some p =>
    obtain ⟨hstar, hone⟩ := h p hp
    rw [fits_one_iff hp hstar hk]
    exact fun hfits => hone hfits.1
  | none =>
    have hpattern : pattern.toList.drop i = [] :=
      List.drop_eq_nil_of_le (Array.getElem?_eq_none_iff.1 hp)
    have hcandidate := drop_toList_of_getElem? (Array.getElem?_eq_getElem hk)
    unfold Fits
    rw [hpattern, hcandidate, describes_nil_iff]
    exact List.cons_ne_nil _ _

theorem fits_end_iff : Fits pattern candidate i candidate.size ↔
    (pattern.toList.drop i).all (· == '*') = true := by
  have hcandidate : candidate.toList.drop candidate.size = [] := by simp
  unfold Fits
  rw [hcandidate, describes_empty_iff, List.all_eq_true]
  simp only [beq_iff_eq]

end

namespace State
variable {pattern candidate : Array Char} {c p : Char} {s t : State}

/-! ### Since the last star -/

/-- Since the remembered star, the walk has passed characters of the pattern that take one character
of the candidate each. -/
def InStep (pattern : Array Char) (s : State) : Prop :=
  ∀ r, s.retry = some r → ∃ row, '*' ∉ row ∧
    pattern.toList.drop (r.star + 1) = row ++ pattern.toList.drop s.patternAt ∧
    s.candidateAt = r.consumed + row.length

theorem inStep_start : start.InStep pattern := by
  intro r hr
  cases hr

theorem InStep.step? (hs : s.InStep pattern) (h : s.step? pattern c = some t) :
    t.InStep pattern := by
  intro r hr
  rcases step?_eq pattern c s with ⟨_, hstep⟩ | ⟨p, hp, hstar, _, hstep⟩ | ⟨_, hstep⟩
  · -- right after a star nothing has been passed yet
    obtain rfl := Option.some.inj (hstep.symm.trans h)
    obtain rfl := Option.some.inj hr
    exact ⟨[], List.not_mem_nil, rfl, rfl⟩
  · -- the character that is passed comes to the row
    obtain rfl := Option.some.inj (hstep.symm.trans h)
    obtain ⟨row, hrow, hpattern, hcandidate⟩ := hs r hr
    have hstars : '*' ∉ row ++ [p] := by simp [hrow, Ne.symm hstar]
    have hpassed : pattern.toList.drop (r.star + 1) =
        (row ++ [p]) ++ pattern.toList.drop (s.patternAt + 1) := by
      rw [hpattern, drop_toList_of_getElem? hp, List.append_assoc, List.singleton_append]
    have hlength : s.candidateAt + 1 = r.consumed + (row ++ [p]).length := by
      rw [List.length_append, List.length_singleton, hcandidate, Nat.add_assoc]
    exact ⟨row ++ [p], hstars, hpassed, hlength⟩
  · -- back at the star nothing has been passed yet either
    obtain ⟨r', _, rfl⟩ := Option.map_eq_some_iff.1 (hstep.symm.trans h)
    obtain rfl := Option.some.inj hr
    exact ⟨[], List.not_mem_nil, rfl, rfl⟩

/-- If the remembered star ran on to `k`, the rest of the pattern would come to lie as far to the
right of where it is now. -/
theorem InStep.exists_fits (hs : s.InStep pattern) {r : Retry} (hr : s.retry = some r) {k : Nat}
    (hlt : r.consumed < k) (hk : k ≤ candidate.size) (h : Fits pattern candidate (r.star + 1) k) :
    ∃ k', s.candidateAt < k' ∧ k' ≤ candidate.size ∧ Fits pattern candidate s.patternAt k' := by
  obtain ⟨row, hstar, hrow, hcandidate⟩ := hs r hr
  unfold Fits at h
  rw [hrow] at h
  obtain ⟨before, after, hsplit, hbefore, hafter⟩ := describes_append_iff.1 h
  have hlength : before.length = row.length := hbefore.length_eq hstar
  have hdrop : candidate.toList.drop (k + row.length) = after := by
    rw [← List.drop_drop, hsplit, ← hlength, List.drop_left]
  have hle := congrArg List.length hsplit
  simp only [List.length_drop, Array.length_toList, List.length_append] at hle
  refine ⟨k + row.length, by omega, by omega, ?_⟩
  rw [Fits, hdrop]
  exact hafter

/-! ### Promising states -/

/-- The walk can still come to a good end: as things stand, or with a longer run of the remembered
star. -/
def Promising (pattern candidate : Array Char) (s : State) : Prop :=
  Fits pattern candidate s.patternAt s.candidateAt ∨
    ∃ r, s.retry = some r ∧
      ∃ k, r.consumed < k ∧ k ≤ candidate.size ∧ Fits pattern candidate (r.star + 1) k

theorem promising_start_iff : start.Promising pattern candidate ↔
    Describes pattern.toList candidate.toList := by
  simp [Promising, Fits, start]

theorem promising_advance_iff (hp : pattern[s.patternAt]? = some p) (hstar : p ≠ '*')
    (hc : s.candidateAt < candidate.size) (hone : p = '?' ∨ p = candidate[s.candidateAt]) :
    s.advance.Promising pattern candidate ↔ s.Promising pattern candidate := by
  have hfits : Fits pattern candidate (s.patternAt + 1) (s.candidateAt + 1) ↔
      Fits pattern candidate s.patternAt s.candidateAt := by
    rw [fits_one_iff hp hstar hc, and_iff_right hone]
  exact or_congr_left hfits

/-- Nothing is lost with the star that is forgotten. -/
theorem promising_enterStar_iff (hs : s.InStep pattern) (hp : pattern[s.patternAt]? = some '*')
    (hc : s.candidateAt ≤ candidate.size) :
    s.enterStar.Promising pattern candidate ↔ s.Promising pattern candidate := by
  have hstar : Fits pattern candidate s.patternAt s.candidateAt ↔
      ∃ k, s.candidateAt ≤ k ∧ k ≤ candidate.size ∧ Fits pattern candidate (s.patternAt + 1) k :=
    fits_star_iff hp hc
  have henter : s.enterStar.Promising pattern candidate ↔
      Fits pattern candidate s.patternAt s.candidateAt := by
    rw [hstar]
    constructor
    · rintro (h | ⟨r, hr, k, hlt, hk, h⟩)
      · exact ⟨s.candidateAt, Nat.le_refl _, hc, h⟩
      · obtain rfl := Option.some.inj hr
        exact ⟨k, Nat.le_of_lt hlt, hk, h⟩
    · rintro ⟨k, hle, hk, h⟩
      rcases Nat.eq_or_lt_of_le hle with rfl | hlt
      · exact Or.inl h
      · exact Or.inr ⟨_, rfl, k, hlt, hk, h⟩
  have hforgotten : s.Promising pattern candidate ↔
      Fits pattern candidate s.patternAt s.candidateAt := by
    refine ⟨?_, Or.inl⟩
    rintro (h | ⟨r, hr, k, hlt, hk, h⟩)
    · exact h
    · -- the new star can take what the one before would have taken more
      obtain ⟨k', hlt', hk', h'⟩ := hs.exists_fits hr hlt hk h
      obtain ⟨k'', hle, hk'', hfits⟩ := (fits_star_iff hp hk').1 h'
      exact hstar.2 ⟨k'', by omega, hk'', hfits⟩
  rw [henter, hforgotten]

/-- Where things do not fit as they stand, everything is up to the remembered star. -/
theorem promising_iff_exists_retreat? (hs : s.Valid pattern candidate)
    (hc : s.candidateAt < candidate.size)
    (hstuck : ¬ Fits pattern candidate s.patternAt s.candidateAt) :
    s.Promising pattern candidate ↔ ∃ t, s.retreat? = some t ∧ t.Promising pattern candidate := by
  unfold Promising
  rw [or_iff_right hstuck]
  constructor
  · rintro ⟨r, hr, k, hlt, hk, h⟩
    refine ⟨_, Option.map_eq_some_iff.2 ⟨r, hr, rfl⟩, ?_⟩
    rcases Nat.eq_or_lt_of_le (Nat.succ_le_of_lt hlt) with rfl | hlt'
    · exact Or.inl h
    · exact Or.inr ⟨_, rfl, k, hlt', hk, h⟩
  · rintro ⟨t, ht, h⟩
    obtain ⟨r, hr, rfl⟩ := Option.map_eq_some_iff.1 ht
    have hconsumed : r.consumed ≤ s.candidateAt := (hs.retry r hr).2.2
    rcases h with h | ⟨r', hr', k, hlt, hk, h⟩
    · exact ⟨r, hr, r.consumed + 1, by omega, by omega, h⟩
    · obtain rfl := Option.some.inj hr'
      exact ⟨r, hr, k, Nat.lt_of_succ_lt hlt, hk, h⟩

/-- No move changes whether a state is promising, and one that cannot move is not. -/
theorem Valid.promising_iff (hs : s.Valid pattern candidate) (hrow : s.InStep pattern)
    (hc : s.candidateAt < candidate.size) :
    s.Promising pattern candidate ↔
      ∃ t, s.step? pattern candidate[s.candidateAt] = some t ∧ t.Promising pattern candidate := by
  rcases step?_eq pattern candidate[s.candidateAt] s with
    ⟨hp, hstep⟩ | ⟨p, hp, hstar, hone, hstep⟩ | ⟨hstuck, hstep⟩
  · simp only [hstep, Option.some.injEq, exists_eq_left']
    exact (promising_enterStar_iff hrow hp (Nat.le_of_lt hc)).symm
  · simp only [hstep, Option.some.injEq, exists_eq_left']
    exact (promising_advance_iff hp hstar hc hone).symm
  · rw [hstep]
    exact promising_iff_exists_retreat? hs hc (not_fits_of_stuck hc hstuck)

/-- At the end of the candidate no star can take more. -/
theorem promising_iff_of_end (hs : s.Valid pattern candidate) (hrow : s.InStep pattern)
    (hc : ¬ s.candidateAt < candidate.size) :
    s.Promising pattern candidate ↔ (pattern.toList.drop s.patternAt).all (· == '*') = true := by
  have hend : s.candidateAt = candidate.size := by
    have hle := hs.candidateAt_le
    omega
  have hstars : Fits pattern candidate s.patternAt candidate.size ↔
      (pattern.toList.drop s.patternAt).all (· == '*') = true := fits_end_iff
  rw [← hstars, ← hend]
  refine ⟨?_, Or.inl⟩
  rintro (h | ⟨r, hr, k, hlt, hk, h⟩)
  · exact h
  · obtain ⟨k', hlt', hk', _⟩ := hrow.exists_fits hr hlt hk h
    omega

end State

/-! ### The walk -/

/-- The walk ends with yes exactly if it is in a promising state. -/
theorem run_eq_true_iff {pattern candidate : Array Char} {s : State}
    (hs : s.Valid pattern candidate) (hrow : s.InStep pattern) :
    run pattern candidate s hs = true ↔ s.Promising pattern candidate := by
  fun_induction run pattern candidate s hs with
  | case1 s hs hc t ht ih =>
    have hmove : s.Promising pattern candidate ↔ t.Promising pattern candidate := by
      rw [hs.promising_iff hrow hc]
      simp [ht]
    rw [hmove]
    exact ih (hrow.step? ht)
  | case2 s hs hc hnone =>
    rw [hs.promising_iff hrow hc]
    simp [hnone]
  | case3 s hs hc => exact (State.promising_iff_of_end hs hrow hc).symm

/-- The matcher decides what the pattern describes. -/
theorem accepts_iff_describes {pattern candidate : String} :
    accepts pattern candidate = true ↔ Describes pattern.toList candidate.toList := by
  unfold accepts
  rw [run_eq_true_iff State.valid_start State.inStep_start, State.promising_start_iff]

/-! ### Texts -/

@[simp] theorem accepts_star (candidate : String) : accepts "*" candidate = true := by
  rw [accepts_iff_describes]
  simpa using Describes.star candidate.toList .nil

@[simp] theorem accepts_self (pattern : String) : accepts pattern pattern = true := by
  rw [accepts_iff_describes]
  exact describes_self pattern.toList

/-- Only rows of stars accept the empty text. -/
@[simp] theorem accepts_empty_iff {pattern : String} :
    accepts pattern "" = true ↔ ∀ c ∈ pattern.toList, c = '*' := by
  rw [accepts_iff_describes]
  exact describes_empty_iff

/-- What two patterns describe is described in a row by the two in a row. -/
theorem accepts_append {pattern pattern' candidate candidate' : String}
    (h : accepts pattern candidate = true) (h' : accepts pattern' candidate' = true) :
    accepts (pattern ++ pattern') (candidate ++ candidate') = true := by
  rw [accepts_iff_describes] at h h' ⊢
  rw [String.toList_append, String.toList_append]
  exact describes_append_iff.2 ⟨_, _, rfl, h, h'⟩

/-- A text without wildcards in front of a pattern takes itself. -/
theorem accepts_append_iff {text pattern candidate : String} (hstar : '*' ∉ text.toList)
    (hany : '?' ∉ text.toList) :
    accepts (text ++ pattern) candidate = true ↔
      ∃ rest, candidate = text ++ rest ∧ accepts pattern rest = true := by
  simp only [accepts_iff_describes, String.toList_append, describes_append_iff,
    describes_plain_iff hstar hany]
  constructor
  · rintro ⟨_, after, hsplit, rfl, hafter⟩
    have hcandidate : candidate = text ++ String.ofList after := by
      rw [← String.toList_inj, String.toList_append, String.toList_ofList, hsplit]
    exact ⟨String.ofList after, hcandidate, by rwa [String.toList_ofList]⟩
  · rintro ⟨rest, rfl, hrest⟩
    exact ⟨text.toList, rest.toList, String.toList_append, rfl, hrest⟩

/-! ### Pieces -/

/-- What a character of a pattern takes of the candidate. -/
inductive Takes : Char → List Char → Prop
  | star (piece : List Char) : Takes '*' piece
  | any (c : Char) : Takes '?' [c]
  | literal (c : Char) (hstar : c ≠ '*') (hany : c ≠ '?') : Takes c [c]

/-- A candidate that a pattern describes can be cut into what the characters of the pattern take. -/
theorem describes_iff_exists_pieces {ps cs : List Char} :
    Describes ps cs ↔ ∃ pieces, List.Forall₂ Takes ps pieces ∧ pieces.flatten = cs := by
  constructor
  · intro h
    induction h with
    | nil => exact ⟨[], .nil, rfl⟩
    | star piece _ ih =>
      obtain ⟨pieces, htakes, rfl⟩ := ih
      exact ⟨piece :: pieces, .cons (.star piece) htakes, rfl⟩
    | any c _ ih =>
      obtain ⟨pieces, htakes, rfl⟩ := ih
      exact ⟨[c] :: pieces, .cons (.any c) htakes, rfl⟩
    | literal c hstar hany _ ih =>
      obtain ⟨pieces, htakes, rfl⟩ := ih
      exact ⟨[c] :: pieces, .cons (.literal c hstar hany) htakes, rfl⟩
  · rintro ⟨pieces, htakes, rfl⟩
    induction htakes with
    | nil => exact .nil
    | cons hpiece _ ih =>
      cases hpiece with
      | star => exact .star _ ih
      | any c => exact .any c ih
      | literal _ hstar hany => exact .literal _ hstar hany ih

/-- **The greedy matcher accepts exactly what a pattern describes.**  A candidate is accepted if it
can be cut into consecutive pieces, one for each character of the pattern, of which a star takes
any, a question mark takes one of one character and every other character takes itself; and if it
can be cut so in any way, it is accepted. -/
theorem accepts_iff_exists_pieces (pattern candidate : String) :
    accepts pattern candidate = true ↔
      ∃ pieces, List.Forall₂ Takes pattern.toList pieces ∧ pieces.flatten = candidate.toList := by
  rw [accepts_iff_describes, describes_iff_exists_pieces]

-- the literal after the second star occurs before it too
example : accepts "*ab*abc" "xabyababc" = true := by cbv

end AccessPolicy.Glob
