/-!
# Enumerations with words

Documents and settings name the members of several small enumerations by fixed words.  `Worded` says
that a type is such an enumeration: it has a list of its members in which each is found by its own
word.  A word is then read as the one member it was written for (`Worded.ofText?_eq_some_iff`).

Objects may have members of certain names only, which are the words of an enumeration.
`Worded.checkNames` looks for the first name that is no word.
-/

namespace AccessPolicy

/-- A type with finitely many members that have distinct words. -/
class Worded (α : Type) where
  /-- The word for a member. -/
  text : α → String
  /-- The members. -/
  all : List α
  /-- Each member is the first one with its word. -/
  find?_text (a : α) : all.find? (fun b => text b = text a) = some a

namespace Worded
variable {α : Type} [Worded α]

/-- The member that a word stands for. -/
def ofText? (s : String) : Option α := all.find? fun a => text a = s

@[simp] theorem ofText?_eq_some_iff {s : String} {a : α} : ofText? s = some a ↔ text a = s := by
  constructor
  · intro h
    simpa using List.find?_some h
  · rintro rfl
    exact find?_text a

@[simp] theorem ofText?_text (a : α) : ofText? (text a) = some a := find?_text a

/-- Different members have different words. -/
theorem text_injective {a b : α} (h : text a = text b) : a = b :=
  Option.some.inj ((ofText?_text a).symm.trans (h ▸ ofText?_text b))

/-- The list of members is complete. -/
@[simp] theorem mem_all (a : α) : a ∈ (all : List α) := List.mem_of_find?_eq_some (find?_text a)

/-- The words are those of the list of members. -/
theorem exists_text_iff {s : String} : (∃ a : α, text a = s) ↔ s ∈ (all : List α).map text := by
  rw [List.mem_map]
  constructor
  · rintro ⟨a, ha⟩
    exact ⟨a, mem_all a, ha⟩
  · rintro ⟨a, _, ha⟩
    exact ⟨a, ha⟩

/-! ### Lists of names -/

/-- Refuses names if one of them is no word; the first such is reported. -/
def checkNames (α : Type) [Worded α] {ε : Type} (unknown : String → ε) (names : List String) :
    Except ε Unit :=
  match names.find? fun name => (ofText? name : Option α).isNone with
  | some name => .error (unknown name)
  | none => .ok ()

section
variable {ε : Type} {unknown : String → ε} {names : List String}

@[simp] theorem checkNames_eq_ok_iff :
    checkNames α unknown names = .ok () ↔ ∀ name ∈ names, ∃ a : α, text a = name := by
  have hnone : (names.find? fun name => (ofText? name : Option α).isNone) = none ↔
      ∀ name ∈ names, ∃ a : α, text a = name := by
    simp only [List.find?_eq_none, Option.isNone_iff_eq_none, ← ofText?_eq_some_iff]
    exact forall₂_congr fun name _ => Option.ne_none_iff_exists'
  rw [← hnone]
  unfold checkNames
  cases names.find? fun name => (ofText? name : Option α).isNone <;> simp

theorem checkNames_eq_error_iff {cause : ε} :
    checkNames α unknown names = .error cause ↔
      ∃ name, (names.find? fun name => (ofText? name : Option α).isNone) = some name ∧
        cause = unknown name := by
  unfold checkNames
  cases names.find? fun name => (ofText? name : Option α).isNone <;> simp [eq_comm]

/-- A word among the names makes no difference. -/
theorem checkNames_append_cons {before after : List String} (a : α) :
    checkNames α unknown (before ++ text a :: after) = checkNames α unknown (before ++ after) := by
  unfold checkNames
  simp only [List.find?_append, List.find?_cons, ofText?_text, Option.isNone_some]

end

end Worded

end AccessPolicy
