import AccessPolicy.Proofs.GreedyWalk

/-!
# The bounds of the walk

The greedy matcher moves back and forth in both texts.  Here its walk is taken turn by turn, with
every access to a text checked (`turn`).  Every state that is reached is valid, so no access is out
of range.

The walk ends, as each turn takes something from a count of what is left (`State.turnsLeft`).  What
is left between two stars is settled by the first of them: its run can grow as often as the
candidate has characters, and each time the characters up to the second star are passed at most
once more.  Over the whole pattern this adds up to no more turns than the length of the pattern
times one more than the length of the candidate.

Main statement: `walk_inRange`.
-/

namespace AccessPolicy.Glob

section
variable {pattern : Array Char} {p : Char} {i k : Nat}

/-! ### The next star -/

/-- Where the next `*` of a pattern stands, from a position on; the end of the pattern if there is
none. -/
def nextStar (pattern : Array Char) (i : Nat) : Nat :=
  i + ((pattern.toList.drop i).takeWhile (· != '*')).length

theorem le_nextStar : i ≤ nextStar pattern i := Nat.le_add_right i _

theorem nextStar_le (h : i ≤ pattern.size) : nextStar pattern i ≤ pattern.size := by
  have hlength : ((pattern.toList.drop i).takeWhile (· != '*')).length ≤ pattern.size - i := by
    rw [← Array.length_toList, ← List.length_drop]
    exact (List.takeWhile_sublist _).length_le
  unfold nextStar
  omega

theorem nextStar_of_star (h : pattern[i]? = some '*') : nextStar pattern i = i := by
  rw [nextStar, drop_toList_of_getElem? h, List.takeWhile_cons_of_neg (by decide)]
  rfl

/-- Over a row of other characters the next star stays the same. -/
theorem nextStar_of_row {row : List Char} (hrow : '*' ∉ row) (hi : i ≤ pattern.size)
    (hk : k ≤ pattern.size) (h : pattern.toList.drop i = row ++ pattern.toList.drop k) :
    nextStar pattern i = nextStar pattern k := by
  have hpassed : ∀ c ∈ row, (c != '*') = true := by
    intro c hc
    exact bne_iff_ne.2 fun heq => hrow (heq ▸ hc)
  have hlength := congrArg List.length h
  simp only [List.length_append, List.length_drop, Array.length_toList] at hlength
  rw [nextStar, h, List.takeWhile_append_of_pos hpassed, List.length_append, nextStar]
  omega

theorem nextStar_succ (h : pattern[i]? = some p) (hstar : p ≠ '*') :
    nextStar pattern (i + 1) = nextStar pattern i := by
  have hlt := (Array.getElem?_eq_some_iff.1 h).1
  have hrow : '*' ∉ [p] := by simpa using Ne.symm hstar
  exact (nextStar_of_row hrow (Nat.le_of_lt hlt) hlt (drop_toList_of_getElem? h)).symm

end

namespace State
variable {pattern candidate : Array Char} {c p : Char} {s t : State}

/-! ### What is left -/

/-- The turns that can be taken again between the remembered star and the next one. -/
def turnsAgain (pattern candidate : Array Char) (s : State) : Nat :=
  match s.retry with
  | some r => (candidate.size - r.consumed) * (nextStar pattern s.patternAt - r.star)
  | none => 0

/-- A bound on the turns that are left: those from the next star on, those that can be taken again
before it, and those that lead up to it as things stand. -/
def turnsLeft (pattern candidate : Array Char) (s : State) : Nat :=
  (pattern.size - nextStar pattern s.patternAt) * (candidate.size + 1) +
    s.turnsAgain pattern candidate + (nextStar pattern s.patternAt - s.patternAt)

theorem turnsLeft_start_le :
    start.turnsLeft pattern candidate ≤ pattern.size * (candidate.size + 1) := by
  have hnext : nextStar pattern 0 ≤ pattern.size := nextStar_le (Nat.zero_le _)
  have hfirst : nextStar pattern 0 ≤ nextStar pattern 0 * (candidate.size + 1) :=
    Nat.le_mul_of_pos_right _ (Nat.succ_pos _)
  calc start.turnsLeft pattern candidate
      = (pattern.size - nextStar pattern 0) * (candidate.size + 1) + nextStar pattern 0 := rfl
    _ ≤ (pattern.size - nextStar pattern 0) * (candidate.size + 1) +
        nextStar pattern 0 * (candidate.size + 1) := Nat.add_le_add_left hfirst _
    _ = pattern.size * (candidate.size + 1) := by rw [← Nat.add_mul, Nat.sub_add_cancel hnext]

theorem turnsLeft_advance (hp : pattern[s.patternAt]? = some p) (hstar : p ≠ '*') :
    s.advance.turnsLeft pattern candidate < s.turnsLeft pattern candidate := by
  have hnext : nextStar pattern (s.patternAt + 1) = nextStar pattern s.patternAt :=
    nextStar_succ hp hstar
  have hle : s.patternAt + 1 ≤ nextStar pattern s.patternAt := hnext ▸ le_nextStar
  have hagain : s.advance.turnsAgain pattern candidate = s.turnsAgain pattern candidate := by
    simp only [turnsAgain, advance, hnext]
  have hadvance : s.advance.patternAt = s.patternAt + 1 := rfl
  rw [turnsLeft, turnsLeft, hagain, hadvance, hnext]
  omega

/-- A star that is entered brings no more turns than were set aside for it. -/
theorem turnsLeft_enterStar (hp : pattern[s.patternAt]? = some '*') :
    s.enterStar.turnsLeft pattern candidate < s.turnsLeft pattern candidate := by
  have hlt := (Array.getElem?_eq_some_iff.1 hp).1
  have hbefore : (pattern.size - s.patternAt) * (candidate.size + 1) ≤
      s.turnsLeft pattern candidate := by
    rw [turnsLeft, nextStar_of_star hp, Nat.add_assoc]
    exact Nat.le_add_right _ _
  have hentered : s.enterStar.turnsLeft pattern candidate =
      (pattern.size - nextStar pattern (s.patternAt + 1)) * (candidate.size + 1) +
        (candidate.size - s.candidateAt) * (nextStar pattern (s.patternAt + 1) - s.patternAt) +
        (nextStar pattern (s.patternAt + 1) - (s.patternAt + 1)) := rfl
  have hge : s.patternAt + 1 ≤ nextStar pattern (s.patternAt + 1) := le_nextStar
  have hle : nextStar pattern (s.patternAt + 1) ≤ pattern.size := nextStar_le hlt
  generalize nextStar pattern (s.patternAt + 1) = next at hentered hge hle
  have hagain : (candidate.size - s.candidateAt) * (next - s.patternAt) ≤
      candidate.size * (next - s.patternAt) := Nat.mul_le_mul_right _ (Nat.sub_le _ _)
  have hsplit : pattern.size - s.patternAt = (pattern.size - next) + (next - s.patternAt) := by
    omega
  calc s.enterStar.turnsLeft pattern candidate
      < (pattern.size - next) * (candidate.size + 1) +
          (candidate.size * (next - s.patternAt) + (next - s.patternAt)) := by omega
    _ = (pattern.size - s.patternAt) * (candidate.size + 1) := by
        rw [hsplit, Nat.add_mul, Nat.mul_succ (next - s.patternAt), Nat.mul_comm candidate.size]
    _ ≤ s.turnsLeft pattern candidate := hbefore

/-- A run that grows is paid for by the turns up to the next star, which can be taken once less. -/
theorem turnsLeft_retreat? (hs : s.Valid pattern candidate) (hrow : s.InStep pattern)
    (hc : s.candidateAt < candidate.size) (h : s.retreat? = some t) :
    t.turnsLeft pattern candidate < s.turnsLeft pattern candidate := by
  obtain ⟨r, hr, rfl⟩ := Option.map_eq_some_iff.1 h
  obtain ⟨_, hlt, hconsumed⟩ := hs.retry r hr
  obtain ⟨row, hstar, hpassed, _⟩ := hrow r hr
  have hnext : nextStar pattern (r.star + 1) = nextStar pattern s.patternAt :=
    nextStar_of_row hstar (Nat.le_trans hlt hs.patternAt_le) hs.patternAt_le hpassed
  have hge : s.patternAt ≤ nextStar pattern s.patternAt := le_nextStar
  simp only [turnsLeft, turnsAgain, hr, hnext]
  generalize nextStar pattern s.patternAt = next at hge
  have hagain : (candidate.size - r.consumed) * (next - r.star) =
      (candidate.size - (r.consumed + 1)) * (next - r.star) + (next - r.star) := by
    rw [← Nat.succ_mul]
    congr 1
    omega
  omega

/-- Each turn takes something from what is left. -/
theorem Valid.turnsLeft_lt (hs : s.Valid pattern candidate) (hrow : s.InStep pattern)
    (hc : s.candidateAt < candidate.size) (h : s.step? pattern c = some t) :
    t.turnsLeft pattern candidate < s.turnsLeft pattern candidate := by
  rcases step?_eq pattern c s with ⟨hp, hstep⟩ | ⟨p, hp, hstar, _, hstep⟩ | ⟨_, hstep⟩
  · obtain rfl := Option.some.inj (hstep.symm.trans h)
    exact turnsLeft_enterStar hp
  · obtain rfl := Option.some.inj (hstep.symm.trans h)
    exact turnsLeft_advance hp hstar
  · exact turnsLeft_retreat? hs hrow hc (hstep.symm.trans h)

end State

/-! ### Turns -/

/-- What a turn of the walk comes to. -/
inductive Turn
  | next (s : State)
  | answer (accepted : Bool)
  /-- An access beyond the end of a text. -/
  | outOfRange

/-- One turn of the walk, in which every access to a text is checked. -/
def turn (pattern candidate : Array Char) (s : State) : Turn :=
  if s.candidateAt < candidate.size then
    match candidate[s.candidateAt]? with
    | some c =>
      match s.step? pattern c with
      | some t => .next t
      | none => .answer false
    | none => .outOfRange
  else if s.patternAt ≤ pattern.size then
    .answer ((pattern.toList.drop s.patternAt).all (· == '*'))
  else .outOfRange

/-- The state that is reached after so many turns. -/
inductive Reached (pattern candidate : Array Char) : Nat → State → Prop
  | start : Reached pattern candidate 0 State.start
  | further {n : Nat} {s t : State} (hs : Reached pattern candidate n s)
      (h : turn pattern candidate s = .next t) : Reached pattern candidate (n + 1) t

section
variable {pattern candidate : Array Char} {n : Nat} {s t : State}

theorem turn_eq_next_iff : turn pattern candidate s = .next t ↔
    ∃ hc : s.candidateAt < candidate.size, s.step? pattern candidate[s.candidateAt] = some t := by
  unfold turn
  constructor
  · intro h
    split_ifs at h with hc
    rw [Array.getElem?_eq_getElem hc] at h
    dsimp only at h
    split at h
    · rename_i hstep
      cases h
      exact ⟨hc, hstep⟩
    · cases h
  · rintro ⟨hc, hstep⟩
    rw [if_pos hc, Array.getElem?_eq_getElem hc]
    simp only [hstep]

/-- Where the walk ends, it ends with the answer of the matcher. -/
theorem turn_of_stuck (hc : s.candidateAt < candidate.size)
    (h : s.step? pattern candidate[s.candidateAt] = none) :
    turn pattern candidate s = .answer false := by
  rw [turn, if_pos hc, Array.getElem?_eq_getElem hc]
  simp only [h]

theorem turn_of_end (hp : s.patternAt ≤ pattern.size) (hc : ¬ s.candidateAt < candidate.size) :
    turn pattern candidate s = .answer ((pattern.toList.drop s.patternAt).all (· == '*')) := by
  rw [turn, if_neg hc, if_pos hp]

theorem State.Valid.turn_ne_outOfRange (hs : s.Valid pattern candidate) :
    turn pattern candidate s ≠ .outOfRange := by
  by_cases hc : s.candidateAt < candidate.size
  · rw [turn, if_pos hc, Array.getElem?_eq_getElem hc]
    dsimp only
    split
    · exact nofun
    · exact nofun
  · rw [turn_of_end hs.patternAt_le hc]
    exact nofun

/-! ### The walk as a whole -/

/-- What is kept by every turn: validity, the row since the last star, and the sum of the turns that
were taken and those that are left. -/
theorem Reached.bounds (h : Reached pattern candidate n s) :
    s.Valid pattern candidate ∧ s.InStep pattern ∧
      n + s.turnsLeft pattern candidate ≤ pattern.size * (candidate.size + 1) := by
  induction h with
  | start =>
    refine ⟨State.valid_start, State.inStep_start, ?_⟩
    rw [Nat.zero_add]
    exact State.turnsLeft_start_le
  | further _ hturn ih =>
    obtain ⟨hvalid, hrow, hle⟩ := ih
    obtain ⟨hc, hstep⟩ := turn_eq_next_iff.1 hturn
    have hlt := hvalid.turnsLeft_lt hrow hc hstep
    exact ⟨hvalid.step? hc hstep, hrow.step? hstep, by omega⟩

/-- From every state that is reached the walk goes on to the answer of the matcher. -/
theorem Reached.exists_answer (hs : s.Valid pattern candidate) (h : Reached pattern candidate n s) :
    ∃ m t, Reached pattern candidate m t ∧
      turn pattern candidate t = .answer (run pattern candidate s hs) := by
  fun_induction run pattern candidate s hs generalizing n with
  | case1 s hs hc t hstep ih => exact ih (.further h (turn_eq_next_iff.2 ⟨hc, hstep⟩))
  | case2 s hs hc hnone => exact ⟨n, s, h, turn_of_stuck hc hnone⟩
  | case3 s hs hc => exact ⟨n, s, h, turn_of_end hs.patternAt_le hc⟩

end

/-- **The walk stays within both texts, and it ends.**  In every state that is reached the positions
are inside their texts, and the star to go back to is a star of the pattern that was passed and
whose run ends no later than the candidate position.  No access is out of range.  After no more
turns than the length of the pattern times one more than that of the candidate, the walk ends with
the answer of the matcher. -/
theorem walk_inRange (pattern candidate : String) :
    (∀ n s, Reached pattern.toList.toArray candidate.toList.toArray n s →
      s.Valid pattern.toList.toArray candidate.toList.toArray ∧
        turn pattern.toList.toArray candidate.toList.toArray s ≠ .outOfRange ∧
        n ≤ pattern.length * (candidate.length + 1)) ∧
    ∃ n s, Reached pattern.toList.toArray candidate.toList.toArray n s ∧
      turn pattern.toList.toArray candidate.toList.toArray s =
        .answer (accepts pattern candidate) := by
  constructor
  · intro n s h
    obtain ⟨hvalid, _, hle⟩ := h.bounds
    simp only [List.size_toArray, String.length_toList] at hle
    exact ⟨hvalid, hvalid.turn_ne_outOfRange, by omega⟩
  · exact Reached.exists_answer State.valid_start .start

/-- The star of `*b` takes the first character of `ab` only after the walk has come back to it. -/
theorem walk_back_inRange :
    Reached "*b".toList.toArray "ab".toList.toArray 3 ⟨2, 2, some ⟨0, 1⟩⟩ ∧
      State.Valid "*b".toList.toArray "ab".toList.toArray ⟨2, 2, some ⟨0, 1⟩⟩ ∧
      turn "*b".toList.toArray "ab".toList.toArray ⟨2, 2, some ⟨0, 1⟩⟩ ≠ .outOfRange ∧
      3 ≤ "*b".length * ("ab".length + 1) := by
  have hstar : Reached "*b".toList.toArray "ab".toList.toArray 1 ⟨1, 0, some ⟨0, 0⟩⟩ :=
    .further .start rfl
  have hback : Reached "*b".toList.toArray "ab".toList.toArray 2 ⟨1, 1, some ⟨0, 1⟩⟩ :=
    .further hstar rfl
  have hend : Reached "*b".toList.toArray "ab".toList.toArray 3 ⟨2, 2, some ⟨0, 1⟩⟩ :=
    .further hback rfl
  exact ⟨hend, (walk_inRange "*b" "ab").1 3 _ hend⟩

end AccessPolicy.Glob
