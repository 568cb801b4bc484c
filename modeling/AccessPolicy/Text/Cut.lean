/-!
# Cutting a text at a separator

`cut? sep s` is the text before the first `sep` and the text after it.  Resource names and action
patterns are both read this way.  A cut loses nothing but the separator and its first part has no
separator left (`cut?_eq_some_iff`); it fails only where there is no separator (`cut?_eq_none_iff`).
-/

namespace AccessPolicy.Text

/-! ### Lists of characters -/

/-- The characters before the first `sep` and those after it, if there is a `sep`. -/
def cutChars? (sep : Char) : List Char → Option (List Char × List Char)
  | [] => none
  | c :: cs =>
    if c = sep then some ([], cs)
    else (cutChars? sep cs).map fun (before, after) => (c :: before, after)

theorem cutChars?_eq_some_iff {sep : Char} {s before after : List Char} :
    cutChars? sep s = some (before, after) ↔ s = before ++ sep :: after ∧ sep ∉ before := by
  induction s generalizing before with
  | nil => simp [cutChars?]
  | cons c cs ih =>
    rw [cutChars?]
    split
    · rename_i hc
      subst hc
      cases before with
      | nil => simp [eq_comm]
      | cons b bs =>
        simp only [Option.some.injEq, Prod.mk.injEq, List.nil_eq, reduceCtorEq, false_and,
          List.cons_append, List.cons.injEq, List.mem_cons, not_or, false_iff]
        rintro ⟨⟨rfl, _⟩, hne, _⟩
        exact hne rfl
    · rename_i hc
      cases before with
      | nil =>
        simp only [Option.map_eq_some_iff, Prod.mk.injEq, reduceCtorEq, false_and, and_false,
          exists_const, List.nil_append, List.cons.injEq, List.not_mem_nil, not_false_eq_true,
          and_true, false_iff, not_and]
        exact fun h => absurd h hc
      | cons b bs =>
        simp only [Option.map_eq_some_iff, Prod.exists, Prod.mk.injEq, List.cons.injEq,
          List.cons_append, List.mem_cons, not_or]
        constructor
        · rintro ⟨x, y, h, ⟨rfl, rfl⟩, rfl⟩
          obtain ⟨rfl, hx⟩ := ih.1 h
          exact ⟨⟨rfl, rfl⟩, fun h => hc h.symm, hx⟩
        · rintro ⟨⟨rfl, rfl⟩, _, hbs⟩
          exact ⟨bs, after, ih.2 ⟨rfl, hbs⟩, ⟨rfl, rfl⟩, rfl⟩

@[simp] theorem cutChars?_eq_none_iff {sep : Char} {s : List Char} :
    cutChars? sep s = none ↔ sep ∉ s := by
  induction s with
  | nil => simp [cutChars?]
  | cons c cs ih =>
    rw [cutChars?]
    split
    · rename_i hc
      simp [hc]
    · rename_i hc
      simp [ih, Ne.symm hc]

/-! ### Texts -/

/-- The text before the first `sep` and the text after it, if there is a `sep`. -/
def cut? (sep : Char) (s : String) : Option (String × String) :=
  (cutChars? sep s.toList).map fun (before, after) => (String.ofList before, String.ofList after)

theorem cut?_eq_some_iff {sep : Char} {s before after : String} :
    cut? sep s = some (before, after) ↔
      s.toList = before.toList ++ sep :: after.toList ∧ sep ∉ before.toList := by
  simp only [cut?, Option.map_eq_some_iff, Prod.exists, Prod.mk.injEq]
  constructor
  · rintro ⟨x, y, h, rfl, rfl⟩
    simpa using cutChars?_eq_some_iff.1 h
  · intro h
    exact ⟨before.toList, after.toList, cutChars?_eq_some_iff.2 h, by simp, by simp⟩

@[simp] theorem cut?_eq_none_iff {sep : Char} {s : String} :
    cut? sep s = none ↔ sep ∉ s.toList := by
  simp [cut?]

end AccessPolicy.Text
