import AccessPolicy.Json.Canonical

/-!
# Looking up members

The members of an object are looked up by name.  A name is there exactly if the look-up finds a
value, and putting members with different names in order (`Members.ofList`) changes no look-up
(`Members.get?_ofList`).  Where names are repeated, `Members.last?` looks up the last member of a
name, which is the one that is kept in the canonical form (`get?_canonicalMembers`).  Members in
order are determined by what is found in them (`Members.Sorted.ext`), and what is found in a
canonical value is canonical.
-/

namespace AccessPolicy.Json

/-! ### Look-ups -/

namespace Members
variable {members : Members} {name : String} {v : Json}

theorem mem_of_get?_eq_some (h : members.get? name = some v) : (name, v) ∈ members := by
  obtain ⟨before, after, rfl, _⟩ := List.lookup_eq_some_iff.1 h
  simp

@[simp] theorem isSome_get?_iff : (members.get? name).isSome = true ↔ name ∈ members.names := by
  unfold get? names
  rw [List.lookup_isSome_iff, List.mem_map]
  constructor
  · rintro ⟨member, hmember, hname⟩
    exact ⟨member, hmember, (eq_of_beq hname).symm⟩
  · rintro ⟨member, hmember, rfl⟩
    exact ⟨member, hmember, beq_self_eq_true _⟩

@[simp] theorem get?_eq_none_iff : members.get? name = none ↔ name ∉ members.names := by
  rw [← isSome_get?_iff, Bool.not_eq_true, Option.isSome_eq_false_iff, Option.isNone_iff_eq_none]

/-- A member is found if none before it has its name. -/
theorem get?_append_cons_self {before after : Members} (h : name ∉ before.names) :
    (before ++ (name, v) :: after : Members).get? name = some v := by
  have hbefore : before.lookup name = none := get?_eq_none_iff.2 h
  unfold get?
  rw [List.lookup_append, hbefore, Option.none_or, List.lookup_cons_self]

/-- A member has no part in what is found under another name. -/
theorem get?_append_cons_of_ne {before after : Members} {other : String} (h : other ≠ name) :
    (before ++ (name, v) :: after : Members).get? other = (before ++ after).get? other := by
  have hskip : List.lookup other ((name, v) :: after) = after.lookup other := by
    rw [List.lookup_cons, beq_eq_false_iff_ne.2 h]
  unfold get?
  rw [List.lookup_append, List.lookup_append, hskip]

/-- Putting members in order keeps what is found, if no name is repeated. -/
theorem get?_ofList (h : members.names.Nodup) (name : String) :
    (ofList members).get? name = members.get? name := by
  induction members generalizing name with
  | nil => rfl
  | cons member rest ih =>
    obtain ⟨k, v⟩ := member
    obtain ⟨hk, hrest⟩ := List.nodup_cons.1 h
    -- the member of this name is the only one, so none of the rest wins over it
    have hnone : get? rest k = none := get?_eq_none_iff.2 hk
    rw [ofList, (sorted_ofList rest).get?_insertNew, ih hrest, ih hrest, hnone, get?_cons,
      Option.getD_none]

/-- Putting members in order brings in no name. -/
theorem mem_names_ofList (h : name ∈ (ofList members).names) : name ∈ members.names := by
  induction members with
  | nil => exact h
  | cons member rest ih =>
    obtain ⟨k, v⟩ := member
    obtain ⟨x, hx, rfl⟩ := List.mem_map.1 h
    rcases mem_insertNew hx with rfl | hx
    · exact List.mem_cons_self
    · exact List.mem_cons_of_mem _ (ih (List.mem_map_of_mem hx))

/-! ### Members in order -/

theorem Sorted.pairwise_names (h : members.Sorted) : members.names.Pairwise (· < ·) :=
  List.pairwise_map.2 h

theorem Sorted.nodup (h : members.Sorted) : members.Nodup := by
  refine h.imp fun hlt heq => ?_
  rw [heq] at hlt
  exact String.lt_irrefl _ hlt

/-- In members in order every member is the one that is found under its name. -/
theorem Sorted.mem_iff (h : members.Sorted) {member : String × Json} :
    member ∈ members ↔ members.get? member.1 = some member.2 := by
  refine ⟨fun hmember => ?_, mem_of_get?_eq_some⟩
  obtain ⟨before, after, rfl⟩ := List.append_of_mem hmember
  refine List.lookup_eq_some_iff.2 ⟨before, after, rfl, fun other hother => ?_⟩
  have hlt : other.1 < member.1 :=
    (List.pairwise_append.1 h).2.2 other hother member List.mem_cons_self
  rw [bne_iff_ne]
  intro heq
  rw [heq] at hlt
  exact String.lt_irrefl _ hlt

/-- Members in order are determined by what is found under each name. -/
theorem Sorted.ext {members' : Members} (h : members.Sorted) (h' : members'.Sorted)
    (hget : ∀ name, members.get? name = members'.get? name) : members = members' := by
  have hperm : members.Perm members' := by
    refine (List.perm_ext_iff_of_nodup h.nodup h'.nodup).2 fun member => ?_
    rw [h.mem_iff, h'.mem_iff, hget]
  refine hperm.eq_of_pairwise (fun x y _ _ hxy hyx => ?_) h h'
  exact absurd (String.lt_trans hxy hyx) (String.lt_irrefl _)

end Members

/-! ### Parts of canonical values -/

theorem canonicalItems_of_forall {items : List Json} (h : ∀ v ∈ items, v.Canonical) :
    CanonicalItems items := by
  induction items with
  | nil => trivial
  | cons v rest ih =>
    obtain ⟨hv, hrest⟩ := List.forall_mem_cons.1 h
    exact ⟨hv, ih hrest⟩

theorem canonicalMembers_of_forall {members : Members}
    (h : ∀ member ∈ members, member.2.Canonical) : CanonicalMembers members := by
  induction members with
  | nil => trivial
  | cons member rest ih =>
    obtain ⟨hv, hrest⟩ := List.forall_mem_cons.1 h
    exact ⟨hv, ih hrest⟩

@[simp] theorem canonicalItems_eq_map (items : List Json) :
    canonicalItems items = items.map canonical := by
  induction items with
  | nil => rfl
  | cons v rest ih => rw [canonicalItems, ih, List.map_cons]

/-- Members with canonical values only have to be put in order. -/
theorem CanonicalMembers.canonicalMembers_eq_ofList {members : Members}
    (h : CanonicalMembers members) : canonicalMembers members = Members.ofList members := by
  induction members with
  | nil => rfl
  | cons member rest ih =>
    obtain ⟨k, v⟩ := member
    rw [canonicalMembers, Members.ofList, ih h.2, Canonical.canonical_eq v h.1]

theorem CanonicalItems.canonical_of_mem {items : List Json} (h : CanonicalItems items) {v : Json}
    (hv : v ∈ items) : v.Canonical := by
  induction items with
  | nil => cases hv
  | cons item items ih =>
    rcases List.mem_cons.1 hv with rfl | hv
    · exact h.1
    · exact ih h.2 hv

theorem CanonicalMembers.canonical_of_mem {members : Members} (h : CanonicalMembers members)
    {member : String × Json} (hmember : member ∈ members) : member.2.Canonical := by
  induction members with
  | nil => cases hmember
  | cons first rest ih =>
    rcases List.mem_cons.1 hmember with rfl | hmember
    · exact h.1
    · exact ih h.2 hmember

end AccessPolicy.Json
