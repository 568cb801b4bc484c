import AccessPolicy.Proofs.GreedyWalk
import Mathlib.Data.List.Basic
import Mathlib.Order.Defs.Unbundled

/-!
# Patterns that contain one another

A pattern subsumes another if it describes all that the other does.  To find out it is enough to
match the first with the text of the second: every pattern describes its own text, and a pattern
without question marks that describes a text describes whatever this text describes when it is read
as a pattern (`Describes.trans`).  For a wildcard of the second can only have been taken by a star
of the first, and the star takes what the wildcard stands for as well.

A question mark takes one wildcard, too, but not what a star stands for.  So the law holds of no
pattern that has one (`exists_not_accepts_of_any`).

Main statement: `accepts_subsumption`.
-/

namespace AccessPolicy.Glob
variable {ps qs cs : List Char}

/-- The first pattern describes whatever the second describes. -/
def Subsumes (p q : String) : Prop := ∀ c, accepts q c = true → accepts p c = true

/-! ### Patterns without question marks -/

theorem Describes.trans (hany : '?' ∉ ps) (h : Describes ps qs) (h' : Describes qs cs) :
    Describes ps cs := by
  induction h generalizing cs with
  | nil => exact h'
  | star piece _ ih =>
    -- whatever the piece describes as a pattern, the star takes that as well
    obtain ⟨before, after, rfl, _, hafter⟩ := describes_append_iff.1 h'
    exact .star before (ih (List.not_mem_of_not_mem_cons hany) hafter)
  | any =>
    -- the character taken could be a star
    exact absurd List.mem_cons_self hany
  | literal c hstar hquestion _ ih =>
    obtain ⟨rest, rfl, hrest⟩ := (describes_literal_iff hstar hquestion).1 h'
    exact .literal c hstar hquestion (ih (List.not_mem_of_not_mem_cons hany) hrest)

theorem accepts_trans {p q c : String} (hany : '?' ∉ p.toList) (h : accepts p q = true)
    (h' : accepts q c = true) : accepts p c = true :=
  accepts_iff_describes.2 ((accepts_iff_describes.1 h).trans hany (accepts_iff_describes.1 h'))

/-- A pattern without question marks subsumes exactly those whose text it describes. -/
theorem subsumes_iff {p q : String} (hany : '?' ∉ p.toList) :
    Subsumes p q ↔ accepts p q = true :=
  ⟨fun h => h q (accepts_self q), fun h _ => accepts_trans hany h⟩

/-! ### Patterns with question marks -/

/-- The pattern with stars for its question marks. -/
def loosen (ps : List Char) : List Char := ps.map fun p => if p = '?' then '*' else p

/-- The characters of a pattern that are no wildcards. -/
def literals (ps : List Char) : List Char := ps.filter fun p => p ≠ '*' ∧ p ≠ '?'

theorem loosen_cons_of_ne {p : Char} (hany : p ≠ '?') (ps : List Char) :
    loosen (p :: ps) = p :: loosen ps := by
  simp [loosen, hany]

theorem literals_cons {p : Char} (hstar : p ≠ '*') (hany : p ≠ '?') (ps : List Char) :
    literals (p :: ps) = p :: literals ps := by
  simp [literals, hstar, hany]

theorem describes_loosen (ps : List Char) : Describes ps (loosen ps) := by
  induction ps with
  | nil => exact .nil
  | cons p ps ih =>
    by_cases hany : p = '?'
    · subst hany
      exact .any '*' ih
    · rw [loosen_cons_of_ne hany]
      by_cases hstar : p = '*'
      · subst hstar
        exact .star ['*'] ih
      · exact .literal p hstar hany ih

/-- Stars may take nothing, so that only the literal characters are left. -/
theorem loosen_describes_literals (ps : List Char) : Describes (loosen ps) (literals ps) := by
  induction ps with
  | nil => exact .nil
  | cons p ps ih =>
    by_cases hwild : p = '*' ∨ p = '?'
    · have hstar : loosen (p :: ps) = '*' :: loosen ps := by rcases hwild with rfl | rfl <;> rfl
      have hnone : literals (p :: ps) = literals ps := by rcases hwild with rfl | rfl <;> rfl
      rw [hstar, hnone]
      exact .star [] ih
    · obtain ⟨hstar, hany⟩ := not_or.1 hwild
      rw [loosen_cons_of_ne hany, literals_cons hstar hany]
      exact .literal p hstar hany ih

/-- Each question mark takes one character beside those that the literal characters take. -/
theorem Describes.length_literals_add_count_le (h : Describes ps cs) :
    (literals ps).length + ps.count '?' ≤ cs.length := by
  induction h with
  | nil => exact Nat.le_refl _
  | star piece _ ih =>
    rw [List.length_append]
    exact Nat.le_add_left_of_le ih
  | any _ _ ih =>
    rw [List.count_cons_self, List.length_cons]
    exact Nat.succ_le_succ ih
  | @literal c ps cs hstar hany _ ih =>
    rw [literals_cons hstar hany, List.count_cons_of_ne hany, List.length_cons, List.length_cons]
    omega

/-- A pattern describes its own text with stars for the question marks, but not all that is
described by this text. -/
theorem exists_not_accepts_of_any {p : String} (hany : '?' ∈ p.toList) :
    ∃ q c, accepts p q = true ∧ accepts q c = true ∧ accepts p c = false := by
  refine ⟨String.ofList (loosen p.toList), String.ofList (literals p.toList), ?_, ?_, ?_⟩
  · rw [accepts_iff_describes, String.toList_ofList]
    exact describes_loosen p.toList
  · rw [accepts_iff_describes, String.toList_ofList, String.toList_ofList]
    exact loosen_describes_literals p.toList
  · rw [Bool.eq_false_iff, ne_eq, accepts_iff_describes, String.toList_ofList]
    intro h
    have hle := h.length_literals_add_count_le
    have hpos : 0 < p.toList.count '?' := List.count_pos_iff.2 hany
    omega

/-! ### Whole texts -/

/-- **Matching a pattern with a pattern decides whether the one subsumes the other.**  Every pattern
describes its own text, and a pattern without question marks describes what any pattern describes
whose text it describes.  So matching is a preorder on the patterns without question marks, and
the same as subsumption there; and the law fails of every pattern that has a question mark. -/
theorem accepts_subsumption :
    (∀ p, accepts p p = true) ∧
    (∀ p q c, '?' ∉ p.toList → accepts p q = true → accepts q c = true → accepts p c = true) ∧
    IsPreorder {p : String // '?' ∉ p.toList} (fun p q => accepts p q = true) ∧
    (∀ p q, '?' ∉ p.toList → (accepts p q = true ↔ Subsumes p q)) ∧
    ∀ p, '?' ∈ p.toList →
      ∃ q c, accepts p q = true ∧ accepts q c = true ∧ accepts p c = false := by
  refine ⟨accepts_self, fun _ _ _ => accepts_trans, ?_, fun _ _ hany => (subsumes_iff hany).symm,
    fun _ => exists_not_accepts_of_any⟩
  exact { refl := fun p => accepts_self p, trans := fun p _ _ => accepts_trans p.2 }

/-- All logs include the logs of one folder, as the text of this pattern is described by that of all
logs.  For a pattern with a question mark alone there is no such rule. -/
theorem folder_subsumption :
    accepts "arn:aws:s3:::logs/*" "arn:aws:s3:::logs/eu/?*" = true ∧
      accepts "arn:aws:s3:::logs/eu/?*" "arn:aws:s3:::logs/eu/*.gz" = true ∧
      accepts "arn:aws:s3:::logs/*" "arn:aws:s3:::logs/eu/*.gz" = true ∧
      Subsumes "arn:aws:s3:::logs/*" "arn:aws:s3:::logs/eu/?*" ∧
      ∃ q c, accepts "arn:aws:s3:::logs/?" q = true ∧ accepts q c = true ∧
        accepts "arn:aws:s3:::logs/?" c = false := by
  obtain ⟨_, htrans, _, hsubsumes, hany⟩ := accepts_subsumption
  have hfolder : accepts "arn:aws:s3:::logs/*" "arn:aws:s3:::logs/eu/?*" = true := by cbv
  have hending : accepts "arn:aws:s3:::logs/eu/?*" "arn:aws:s3:::logs/eu/*.gz" = true := by cbv
  exact ⟨hfolder, hending, htrans _ _ _ (by decide) hfolder hending,
    (hsubsumes _ _ (by decide)).1 hfolder, hany _ (by decide)⟩

end AccessPolicy.Glob
