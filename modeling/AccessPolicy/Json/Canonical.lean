import AccessPolicy.Json.Basic

/-!
# Canonical values

Documents are kept in one form: in every object the names are unique and stand in increasing order,
by code points.  `Json.canonical` brings any value into this form.  Where a name is repeated the
last member of that name wins.

Main statements: what it makes is canonical (`Json.canonical_canonical`), and a canonical value is
left alone (`Json.Canonical.canonical_eq`).
-/

namespace AccessPolicy.Json

/-! ### Ordered members -/

namespace Members

/-- The names stand in increasing order, so none is repeated. -/
def Sorted (members : Members) : Prop := members.Pairwise fun x y => x.1 < y.1

/-- Adds a member at the place of its name, unless there is one of this name. -/
def insertNew (name : String) (value : Json) : Members → Members
  | [] => [(name, value)]
  | (k, v) :: rest =>
    if name < k then (name, value) :: (k, v) :: rest
    else if name = k then (k, v) :: rest
    else (k, v) :: insertNew name value rest

/-- The members in order of their names, the last one of each name. -/
def ofList : Members → Members
  | [] => []
  | (k, v) :: rest => insertNew k v (ofList rest)

theorem mem_insertNew {name : String} {value : Json} {members : Members} {x : String × Json}
    (h : x ∈ insertNew name value members) : x = (name, value) ∨ x ∈ members := by
  induction members with
  | nil => simpa [insertNew] using h
  | cons y rest ih =>
    obtain ⟨k, v⟩ := y
    rw [insertNew] at h
    split at h
    · simpa using h
    · split at h
      · exact Or.inr h
      · rcases List.mem_cons.1 h with h | h
        · exact Or.inr (h ▸ List.mem_cons_self)
        · exact (ih h).imp_right (List.mem_cons_of_mem _)

/-- What comes before the first member comes before all. -/
theorem Sorted.forall_lt {name k : String} {v : Json} {rest : Members}
    (h : Sorted ((k, v) :: rest)) (hlt : name < k) : ∀ x ∈ (k, v) :: rest, name < x.1 := by
  obtain ⟨hk, _⟩ := List.pairwise_cons.1 h
  refine List.forall_mem_cons.2 ⟨hlt, fun x hx => ?_⟩
  exact String.lt_trans hlt (hk x hx)

theorem Sorted.insertNew {name : String} {value : Json} {members : Members}
    (h : members.Sorted) : (Members.insertNew name value members).Sorted := by
  induction members with
  | nil => exact List.pairwise_singleton _ _
  | cons y rest ih =>
    obtain ⟨k, v⟩ := y
    obtain ⟨hk, hrest⟩ := List.pairwise_cons.1 h
    rw [Members.insertNew]
    split
    · rename_i hlt
      exact List.pairwise_cons.2 ⟨h.forall_lt hlt, h⟩
    · split
      · exact h
      · rename_i hlt hne
        refine List.pairwise_cons.2 ⟨fun x hx => ?_, ih hrest⟩
        rcases mem_insertNew hx with rfl | hx
        · exact Std.lt_of_le_of_ne (String.not_lt.1 hlt) (Ne.symm hne)
        · exact hk x hx

@[simp] theorem sorted_ofList (members : Members) : (ofList members).Sorted := by
  induction members with
  | nil => exact List.Pairwise.nil
  | cons y rest ih => exact ih.insertNew

/-- A member that comes before all others is put in front. -/
theorem insertNew_of_lt {name : String} {value : Json} {members : Members}
    (h : ∀ x ∈ members, name < x.1) : insertNew name value members = (name, value) :: members := by
  cases members with
  | nil => rfl
  | cons y rest => rw [insertNew, if_pos (h y List.mem_cons_self)]

/-- A name below all names of the members is not among them. -/
theorem get?_eq_none_of_lt {members : Members} {key : String} (h : ∀ x ∈ members, key < x.1) :
    members.get? key = none := by
  induction members with
  | nil => rfl
  | cons y rest ih =>
    rw [get?_cons, if_neg, ih fun x hx => h x (List.mem_cons_of_mem _ hx)]
    rintro rfl
    exact String.lt_irrefl _ (h y List.mem_cons_self)

/-- A member that is added is found, unless there was one of its name before. -/
theorem Sorted.get?_insertNew {name : String} {value : Json} {members : Members}
    (h : members.Sorted) (key : String) :
    (Members.insertNew name value members).get? key =
      if key = name then some ((members.get? name).getD value) else members.get? key := by
  induction members with
  | nil => simp [Members.insertNew]
  | cons y rest ih =>
    obtain ⟨k, v⟩ := y
    obtain ⟨_, hrest⟩ := List.pairwise_cons.1 h
    rw [Members.insertNew]
    split
    · rename_i hlt
      have hnone : get? ((k, v) :: rest) name = none := get?_eq_none_of_lt (h.forall_lt hlt)
      rw [get?_cons, hnone]
      rfl
    · split
      · rename_i hkn
        subst hkn
        simp only [get?_cons, if_true]
        split <;> simp_all
      · rename_i hne
        by_cases hkey : key = k
        · simp [hkey, Ne.symm hne]
        · simp [hkey, hne, ih hrest]

end Members

/-! ### Canonical values -/

mutual

/-- The canonical form of a value. -/
def canonical : Json → Json
  | .array items => .array (canonicalItems items)
  | .object members => .object (canonicalMembers members)
  | .null => .null
  | .bool b => .bool b
  | .number n => .number n
  | .string s => .string s

/-- The canonical forms of the items of an array. -/
def canonicalItems : List Json → List Json
  | [] => []
  | v :: rest => canonical v :: canonicalItems rest

/-- The canonical forms of the members of an object, in order of their names. -/
def canonicalMembers : List (String × Json) → List (String × Json)
  | [] => []
  | (k, v) :: rest => Members.insertNew k (canonical v) (canonicalMembers rest)

end

mutual

/-- At every level the members of objects stand in order of their names. -/
def Canonical : Json → Prop
  | .array items => CanonicalItems items
  | .object members => Members.Sorted members ∧ CanonicalMembers members
  | .null | .bool _ | .number _ | .string _ => True

/-- All items are canonical. -/
def CanonicalItems : List Json → Prop
  | [] => True
  | v :: rest => Canonical v ∧ CanonicalItems rest

/-- The values of all members are canonical. -/
def CanonicalMembers : List (String × Json) → Prop
  | [] => True
  | (_, v) :: rest => Canonical v ∧ CanonicalMembers rest

end

theorem CanonicalMembers.insertNew {k : String} {v : Json} {members : List (String × Json)}
    (hv : v.Canonical) (h : CanonicalMembers members) :
    CanonicalMembers (Members.insertNew k v members) := by
  induction members with
  | nil => exact ⟨hv, trivial⟩
  | cons y rest ih =>
    obtain ⟨l, w⟩ := y
    rw [Members.insertNew]
    split
    · exact ⟨hv, h⟩
    · split
      · exact h
      · exact ⟨h.1, ih h.2⟩

mutual

@[simp] theorem canonical_canonical : (v : Json) → v.canonical.Canonical
  | .array items => canonicalItems_canonicalItems items
  | .object members => canonicalMembers_canonicalMembers members
  | .null | .bool _ | .number _ | .string _ => trivial

theorem canonicalItems_canonicalItems : (items : List Json) → CanonicalItems (canonicalItems items)
  | [] => trivial
  | v :: rest => ⟨canonical_canonical v, canonicalItems_canonicalItems rest⟩

theorem canonicalMembers_canonicalMembers : (members : List (String × Json)) →
    Members.Sorted (canonicalMembers members) ∧ CanonicalMembers (canonicalMembers members)
  | [] => ⟨List.Pairwise.nil, trivial⟩
  | (_, v) :: rest =>
    have h := canonicalMembers_canonicalMembers rest
    ⟨h.1.insertNew, h.2.insertNew (canonical_canonical v)⟩

end

mutual

theorem Canonical.canonical_eq : (v : Json) → v.Canonical → v.canonical = v
  | .array items, h => by rw [canonical, CanonicalItems.canonicalItems_eq items h]
  | .object members, h => by rw [canonical, CanonicalMembers.canonicalMembers_eq members h.1 h.2]
  | .null, _ | .bool _, _ | .number _, _ | .string _, _ => rfl

theorem CanonicalItems.canonicalItems_eq : (items : List Json) → CanonicalItems items →
    canonicalItems items = items
  | [], _ => rfl
  | v :: rest, h => by
    rw [canonicalItems, Canonical.canonical_eq v h.1, CanonicalItems.canonicalItems_eq rest h.2]

theorem CanonicalMembers.canonicalMembers_eq : (members : List (String × Json)) →
    Members.Sorted members → CanonicalMembers members → canonicalMembers members = members
  | [], _, _ => rfl
  | (k, v) :: rest, hs, h => by
    obtain ⟨hk, hrest⟩ := List.pairwise_cons.1 hs
    rw [canonicalMembers, Canonical.canonical_eq v h.1,
      CanonicalMembers.canonicalMembers_eq rest hrest h.2, Members.insertNew_of_lt hk]

end

end AccessPolicy.Json
