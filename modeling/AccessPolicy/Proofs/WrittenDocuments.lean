import AccessPolicy.Proofs.NormalForm
import AccessPolicy.Proofs.ReadValues

/-!
# What written documents look like

All that a statement is written as is made of words, at most two levels deep (`Json.Plain`); the one
exception is its condition, which stands as it was read (`Statement.plain_or_condition`).  So
everything that the text of a document depends on, other than words, is decided by the conditions:

* the numbers in it (`Document.exists_condition_of_mem_numbers`);
* how deep it is (`Document.depth_written_le_iff`);
* whether it is the canonical value of the document but for the order of members
  (`Document.canonical_written`).
-/

namespace AccessPolicy

namespace Json

/-! ### Plain values -/

/-- A canonical value without numbers, with at most `levels` arrays and objects in one another. -/
structure Plain (levels : Nat) (v : Json) : Prop where
  canonical : v.Canonical
  numbers : ∀ n, n ∉ v.numbers
  depth_le : v.depth ≤ levels

section
variable {levels : Nat}

theorem plain_string (s : String) : (Json.string s).Plain levels :=
  ⟨trivial, fun _ => List.not_mem_nil, Nat.zero_le levels⟩

theorem plain_array {items : List Json} (h : ∀ v ∈ items, v.Plain levels) :
    (Json.array items).Plain (levels + 1) := by
  refine ⟨canonicalItems_of_forall fun v hv => (h v hv).canonical, fun n hn => ?_, ?_⟩
  · obtain ⟨v, hv, hn⟩ := mem_numbersOfItems_iff.1 hn
    exact (h v hv).numbers n hn
  · exact depth_array_le_succ_iff.2 fun v hv => (h v hv).depth_le

theorem plain_object {members : Members} (hsorted : members.Sorted)
    (h : ∀ member ∈ members, member.2.Plain levels) :
    (Json.object members).Plain (levels + 1) := by
  refine ⟨⟨hsorted, canonicalMembers_of_forall fun member hmember => (h member hmember).canonical⟩,
    fun n hn => ?_, ?_⟩
  · obtain ⟨member, hmember, hn⟩ := mem_numbersOfMembers_iff.1 hn
    exact (h member hmember).numbers n hn
  · exact depth_object_le_succ_iff.2 fun member hmember => (h member hmember).depth_le

end

end Json

/-! ### Parts of statements -/

theorem ValueList.plain_toJson (list : ValueList) : list.toJson.Plain 1 := by
  unfold toJson
  split
  · exact Json.plain_string _
  · refine Json.plain_array fun v hv => ?_
    obtain ⟨s, _, rfl⟩ := List.mem_map.1 hv
    exact Json.plain_string s

theorem Principal.plain_toJson (p : Principal) : p.toJson.Plain 2 := by
  cases p with
  | anyone => exact Json.plain_string "*"
  | named ids =>
    have hkinds : (Worded.all : List PrincipalKind).Pairwise
        fun kind kind' => Worded.text kind < Worded.text kind' := by decide
    rw [toJson, PrincipalIds.map_entries]
    refine Json.plain_object (Json.Members.sorted_ofWords hkinds) fun member hmember => ?_
    obtain ⟨kind, _, _, hvalue⟩ := Json.Members.mem_ofWords_iff.1 hmember
    obtain ⟨list, _, hlist⟩ := Option.map_eq_some_iff.1 hvalue
    rw [← hlist]
    exact list.plain_toJson

/-! ### Statements -/

namespace Statement
variable {s : Statement} {member : String × Json} {n : Nat}

/-- What stands in a written statement is plain, unless it is the condition. -/
theorem plain_or_condition (h : member ∈ s.members) :
    member.2.Plain 2 ∨ ∃ condition ∈ s.condition, member.2 = .object condition := by
  have hlist : ∀ list : ValueList, list.toJson.Plain 2 := fun list =>
    ⟨list.plain_toJson.canonical, list.plain_toJson.numbers,
      Nat.le_succ_of_le list.plain_toJson.depth_le⟩
  have hlist? : ∀ list? : Option ValueList, list?.map ValueList.toJson = some member.2 →
      member.2.Plain 2 := by
    intro list? hvalue
    obtain ⟨list, _, hlist'⟩ := Option.map_eq_some_iff.1 hvalue
    exact hlist' ▸ hlist list
  have hprincipal? : ∀ p? : Option Principal, p?.map Principal.toJson = some member.2 →
      member.2.Plain 2 := by
    intro p? hvalue
    obtain ⟨p, _, hp⟩ := Option.map_eq_some_iff.1 hvalue
    exact hp ▸ p.plain_toJson
  rw [members_eq_ofWords] at h
  obtain ⟨element, _, _, hvalue⟩ := Json.Members.mem_ofWords_iff.1 h
  cases element with
  | effect => exact Or.inl (Option.some.inj hvalue ▸ Json.plain_string _)
  | action | notAction | resource | notResource => exact Or.inl (hlist? _ hvalue)
  | principal | notPrincipal => exact Or.inl (hprincipal? _ hvalue)
  | condition =>
    obtain ⟨condition, hcondition, hmember⟩ := Option.map_eq_some_iff.1 hvalue
    exact Or.inr ⟨condition, hcondition, hmember.symm⟩

theorem condition_mem_members {condition : Json.Members} (h : condition ∈ s.condition) :
    (Element.condition.text, .object condition) ∈ s.members := by
  rw [members_eq_ofWords]
  refine Json.Members.mem_ofWords_iff.2 ⟨.condition, by decide, rfl, ?_⟩
  rw [value?, Option.mem_def.1 h]
  rfl

theorem canonical_written (h : ∀ condition ∈ s.condition, (Json.object condition).Canonical) :
    s.written.canonical = s.toJson := by
  have hmembers : Json.CanonicalMembers s.members := by
    refine Json.canonicalMembers_of_forall fun member hmember => ?_
    rcases plain_or_condition hmember with hplain | ⟨condition, hcondition, hvalue⟩
    · exact hplain.canonical
    · exact hvalue ▸ h condition hcondition
  exact congrArg Json.object hmembers.canonicalMembers_eq_ofList

theorem exists_condition_of_mem_numbers {n : Json.Number} (h : n ∈ s.written.numbers) :
    ∃ condition ∈ s.condition, n ∈ (Json.object condition).numbers := by
  obtain ⟨member, hmember, hn⟩ := Json.mem_numbersOfMembers_iff.1 h
  rcases plain_or_condition hmember with hplain | ⟨condition, hcondition, hvalue⟩
  · exact absurd hn (hplain.numbers n)
  · exact ⟨condition, hcondition, hvalue ▸ hn⟩

theorem depth_written_le_iff (hn : 2 ≤ n) :
    s.written.depth ≤ n + 1 ↔ ∀ condition ∈ s.condition, (Json.object condition).depth ≤ n := by
  refine Json.depth_object_le_succ_iff.trans ⟨fun h condition hcondition => ?_, ?_⟩
  · exact h _ (condition_mem_members hcondition)
  · intro h member hmember
    rcases plain_or_condition hmember with hplain | ⟨condition, hcondition, hvalue⟩
    · exact Nat.le_trans hplain.depth_le hn
    · exact hvalue ▸ h condition hcondition

end Statement

/-! ### Documents -/

namespace Document
variable {d : Document} {n : Nat}

/-- A written document only has to be put in order to be its canonical value. -/
theorem canonical_written
    (h : ∀ s ∈ d.statements, ∀ condition ∈ s.condition, (Json.object condition).Canonical) :
    d.written.canonical = d.toJson := by
  have hstatements : Json.canonicalItems (d.statements.map Statement.written) =
      d.statements.map Statement.toJson := by
    rw [Json.canonicalItems_eq_map, List.map_map]
    exact List.map_congr_left fun s hs => Statement.canonical_written (h s hs)
  show Json.object (Json.Members.insertNew _ _ (Json.Members.insertNew _
    (.array (Json.canonicalItems (d.statements.map Statement.written))) [])) = _
  rw [hstatements]
  rfl

/-- The numbers in a written document are those in its conditions. -/
theorem exists_condition_of_mem_numbers {n : Json.Number} (h : n ∈ d.written.numbers) :
    ∃ s ∈ d.statements, ∃ condition ∈ s.condition, n ∈ (Json.object condition).numbers := by
  obtain ⟨member, hmember, hn⟩ := Json.mem_numbersOfMembers_iff.1 h
  rcases List.mem_pair.1 hmember with rfl | rfl
  · exact absurd hn List.not_mem_nil
  · obtain ⟨v, hv, hn⟩ := Json.mem_numbersOfItems_iff.1 hn
    obtain ⟨s, hs, rfl⟩ := List.mem_map.1 hv
    exact ⟨s, hs, Statement.exists_condition_of_mem_numbers hn⟩

/-- A written document has three levels more than its conditions. -/
theorem depth_written_le_iff (hn : 2 ≤ n) :
    d.written.depth ≤ n + 3 ↔
      ∀ s ∈ d.statements, ∀ condition ∈ s.condition, (Json.object condition).depth ≤ n := by
  calc d.written.depth ≤ n + 3
    _ ↔ (Json.array (d.statements.map Statement.written)).depth ≤ n + 2 := by
      refine Json.depth_object_le_succ_iff.trans ⟨fun h => h _ (List.mem_pair.2 (Or.inr rfl)), ?_⟩
      intro h member hmember
      rcases List.mem_pair.1 hmember with rfl | rfl
      · exact Nat.zero_le _
      · exact h
    _ ↔ ∀ s ∈ d.statements, s.written.depth ≤ n + 1 := by
      rw [Json.depth_array_le_succ_iff, List.forall_mem_map]
    _ ↔ _ := forall₂_congr fun _ _ => Statement.depth_written_le_iff hn

end Document

end AccessPolicy
