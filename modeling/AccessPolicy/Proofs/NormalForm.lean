import AccessPolicy.Proofs.Revalidation

/-!
# The normal form of a policy

A policy can be written in several ways: a statement alone or in an array, one value alone or in an
array.  `Json.normalForm` takes these choices out of a value and leaves everything else as it
stands.  It is said without a word about validation.

A document that was read, written again as a value, is the normal form of what it was read from
(`Document.toJson_of_validate`), so nothing gets lost on the way and nothing is added.  As
documents can be told apart by the values they are written as (`Document.toJson_injective`), the
normal form says exactly which values are the same policy.

Both sides have their members in order of names, so that they can be compared by what is found under
each name, and only names of elements matter (`Json.Members.Sorted.ext_words`).

Main statement: `Document.validate_normalForm`.
-/

namespace AccessPolicy

/-! ### The normal form -/

namespace Json

/-- Puts something else in place of each value, which may depend on its name. -/
def Members.mapValues (f : String → Json → Json) (members : Members) : Members :=
  members.map fun (name, v) => (name, f name v)

/-- An array of one string is replaced by the string. -/
def unwrapped : Json → Json
  | .array [.string s] => .string s
  | v => v

/-- The lists of identifiers in a principal, without needless arrays. -/
def normalPrincipal : Json → Json
  | .object members => .object (Members.mapValues (fun _ v => v.unwrapped) members)
  | v => v

/-- The value under a name of a statement, without needless arrays. -/
def normalValue (name : String) (v : Json) : Json :=
  if name ∈ ["Action", "NotAction", "Resource", "NotResource"] then v.unwrapped
  else if name ∈ ["Principal", "NotPrincipal"] then v.normalPrincipal
  else v

/-- A statement without needless arrays. -/
def normalStatement : Json → Json
  | .object members => .object (Members.mapValues normalValue members)
  | v => v

/-- The statements of a document, always in an array. -/
def normalStatements : Json → Json
  | .array items => .array (items.map normalStatement)
  | .object members => .array [normalStatement (.object members)]
  | v => v

/-- A document with its statements in an array and no needless arrays in them. -/
def normalForm : Json → Json
  | .object members =>
    .object (Members.mapValues
      (fun name v => if name = "Statement" then v.normalStatements else v) members)
  | v => v

end Json

/-! ### Members -/

namespace Json.Members
variable {members members' : Members} {f : String → Json → Json}

@[simp] theorem mapValues_cons (name : String) (v : Json) (members : Members) :
    mapValues f ((name, v) :: members) = (name, f name v) :: members.mapValues f := rfl

@[simp] theorem names_mapValues : (members.mapValues f).names = members.names := by
  unfold names mapValues
  rw [List.map_map]
  rfl

@[simp] theorem get?_mapValues (name : String) :
    (members.mapValues f).get? name = (members.get? name).map (f name) := by
  induction members with
  | nil => rfl
  | cons member rest ih =>
    obtain ⟨k, v⟩ := member
    by_cases h : name = k
    · simp [h]
    · simp [h, ih]

theorem Sorted.mapValues (h : members.Sorted) : (members.mapValues f).Sorted :=
  List.pairwise_map.2 h

/-- Members in order whose names are all words are determined by what is found under each word. -/
theorem Sorted.ext_words (α : Type) [Worded α] (h : members.Sorted) (h' : members'.Sorted)
    (hnames : ∀ name ∈ members.names, ∃ a : α, Worded.text a = name)
    (hnames' : ∀ name ∈ members'.names, ∃ a : α, Worded.text a = name)
    (hget : ∀ a : α, members.get? (Worded.text a) = members'.get? (Worded.text a)) :
    members = members' := by
  refine h.ext h' fun name => ?_
  by_cases hword : ∃ a : α, Worded.text a = name
  · obtain ⟨a, rfl⟩ := hword
    exact hget a
  · -- what is no word is a name on neither side
    rw [get?_eq_none_iff.2 fun hname => hword (hnames name hname),
      get?_eq_none_iff.2 fun hname => hword (hnames' name hname)]

/-- Members for words in order are in order. -/
theorem sorted_ofWords {α : Type} [Worded α] {value? : α → Option Json} {words : List α}
    (h : words.Pairwise fun a b => Worded.text a < Worded.text b) :
    (ofWords value? words).Sorted := by
  refine h.filterMap _ fun a b hab member hmember member' hmember' => ?_
  obtain ⟨_, _, rfl⟩ := Option.map_eq_some_iff.1 hmember
  obtain ⟨_, _, rfl⟩ := Option.map_eq_some_iff.1 hmember'
  exact hab

end Json.Members

/-! ### Values that were read -/

/-- What was read, if anything was, is written as the normal form of what it was read from. -/
theorem map_write_eq_map_normal {α : Type} {read : Json → Option α} {write : α → Json}
    {normal : Json → Json} {v? : Option Json} {a? : Option α} (h : v?.map read = a?.map some)
    (hwrite : ∀ v ∈ v?, ∀ a, read v = some a → write a = normal v) :
    a?.map write = v?.map normal := by
  cases v? with
  | none =>
    cases a? with
    | none => rfl
    | some a => cases h
  | some v =>
    cases a? with
    | none => cases h
    | some a => exact congrArg some (hwrite v rfl a (Option.some.inj h))

theorem ValueList.toJson_of_ofJson? {v : Json} {list : ValueList} (h : ofJson? v = some list) :
    list.toJson = v.unwrapped := by
  unfold toJson
  rcases ofJson?_eq_some_iff.1 h with ⟨s, rfl, hs⟩ | rfl
  · rw [hs]
    rfl
  · rcases list.values with _ | ⟨s, _ | ⟨s', rest⟩⟩ <;> rfl

namespace PrincipalIds
variable {members : Json.Members} {ids : PrincipalIds}

theorem map_get?_of_ofMembers? (h : ofMembers? members = some ids) (kind : PrincipalKind) :
    (members.get? kind.text).map ValueList.ofJson? = (ids.get? kind).map some := by
  obtain ⟨hmembers, hget⟩ := ofMembers?_eq_some_iff.1 h
  rw [hget]
  cases hv : members.get? kind.text with
  | none => rfl
  | some v =>
    obtain ⟨list, hlist⟩ := (hmembers _ (Json.Members.mem_of_get?_eq_some hv)).2
    rw [Option.map_some, Option.bind_some, hlist, Option.map_some]

/-- Kinds are written in order of their names, so members in order are written as they stand. -/
theorem map_entries_of_ofMembers? (hsorted : members.Sorted) (h : ofMembers? members = some ids) :
    (ids.entries.map fun (kind, list) => (kind.text, list.toJson)) =
      members.mapValues fun _ v => v.unwrapped := by
  have hkinds : (Worded.all : List PrincipalKind).Pairwise
      fun kind kind' => Worded.text kind < Worded.text kind' := by decide
  have hnames : ∀ name ∈ (members.mapValues fun _ v => v.unwrapped).names,
      ∃ kind : PrincipalKind, kind.text = name := by
    intro name hname
    rw [Json.Members.names_mapValues] at hname
    obtain ⟨member, hmember, rfl⟩ := List.mem_map.1 hname
    exact ((ofMembers?_eq_some_iff.1 h).1 member hmember).1
  rw [map_entries]
  refine (Json.Members.sorted_ofWords hkinds).ext_words PrincipalKind hsorted.mapValues
    (fun _ => Json.Members.exists_text_of_mem_names_ofWords) hnames fun kind => ?_
  rw [Json.Members.get?_ofWords (Worded.mem_all kind), Json.Members.get?_mapValues]
  exact map_write_eq_map_normal (map_get?_of_ofMembers? h kind)
    fun _ _ _ => ValueList.toJson_of_ofJson?

end PrincipalIds

theorem Principal.toJson_of_ofJson? {v : Json} (hcanonical : v.Canonical) {p : Principal}
    (h : ofJson? v = some p) : p.toJson = v.normalPrincipal := by
  cases v with
  | string s =>
    have hstar : s = "*" ∧ .anyone = p := by
      by_cases hs : s = "*"
      · rw [ofJson?, if_pos hs] at h
        exact ⟨hs, Option.some.inj h⟩
      · rw [ofJson?, if_neg hs] at h
        cases h
    obtain ⟨rfl, rfl⟩ := hstar
    rfl
  | object members =>
    obtain ⟨ids, hids, rfl⟩ := Option.map_eq_some_iff.1 h
    exact congrArg Json.object (PrincipalIds.map_entries_of_ofMembers? hcanonical.1 hids)
  | null | bool _ | number _ | array _ => cases h

/-! ### Statements -/

namespace Statement
variable {t : PolicyType} {members : Json.Members} {s : Statement}

theorem toJson_of_readFrom (hcanonical : (Json.object members).Canonical)
    (h : s.ReadFrom members) : s.toJson = (Json.object members).normalStatement := by
  have hprincipal : ∀ name, ∀ v ∈ members.get? name, ∀ p, Principal.ofJson? v = some p →
      p.toJson = v.normalPrincipal := by
    intro name v hv p hp
    have hmember := Json.Members.mem_of_get?_eq_some hv
    exact Principal.toJson_of_ofJson? (hcanonical.2.canonical_of_mem hmember) hp
  have hvalue : ∀ element : Element,
      s.value? element = (members.get? element.text).map (Json.normalValue element.text) := by
    intro element
    -- effect and condition stand as they are, the others were read and are written again
    cases element with
    | effect =>
      rw [h.effect]
      rfl
    | condition =>
      rw [h.condition, Option.map_map]
      rfl
    | action =>
      exact map_write_eq_map_normal h.action.1 fun _ _ _ => ValueList.toJson_of_ofJson?
    | notAction =>
      exact map_write_eq_map_normal h.action.2 fun _ _ _ => ValueList.toJson_of_ofJson?
    | resource =>
      exact map_write_eq_map_normal h.resource.1 fun _ _ _ => ValueList.toJson_of_ofJson?
    | notResource =>
      exact map_write_eq_map_normal h.resource.2 fun _ _ _ => ValueList.toJson_of_ofJson?
    | principal => exact map_write_eq_map_normal h.principal.1 (hprincipal _)
    | notPrincipal => exact map_write_eq_map_normal h.principal.2 (hprincipal _)
  have hnames : ∀ name ∈ (members.mapValues Json.normalValue).names,
      ∃ element : Element, element.text = name := by
    rw [Json.Members.names_mapValues]
    exact h.names
  refine congrArg Json.object ?_
  refine (Json.Members.sorted_ofList _).ext_words Element hcanonical.1.mapValues
    s.readFrom_ofList_members.names hnames fun element => ?_
  rw [Json.Members.get?_mapValues]
  exact (s.get?_ofList_members element).trans (hvalue element)

theorem toJson_injective {s' : Statement} (h : s.toJson = s'.toJson) : s = s' := by
  have hread := s.readFrom_ofList_members
  rw [Json.object.inj h] at hread
  exact hread.unique s'.readFrom_ofList_members

/-- Statements that were read from a list are written as the normal forms of its items. -/
theorem map_toJson_eq_map_normalStatement {items : List Json} {statements : List Statement}
    (hcanonical : ∀ v ∈ items, v.Canonical)
    (h : items.map (validate t) = statements.map .ok) :
    statements.map toJson = items.map Json.normalStatement := by
  induction items generalizing statements with
  | nil =>
    rw [List.map_nil, eq_comm, List.map_eq_nil_iff] at h
    rw [h]
    rfl
  | cons item items ih =>
    rw [List.map_cons, eq_comm, List.map_eq_cons_iff] at h
    obtain ⟨s, rest, rfl, hs, hrest⟩ := h
    obtain ⟨hitem, hitems⟩ := List.forall_mem_cons.1 hcanonical
    obtain ⟨⟨members, rfl, hread⟩, _⟩ := validate_eq_ok_iff.1 hs.symm
    rw [List.map_cons, List.map_cons, toJson_of_readFrom hitem hread, ih hitems hrest.symm]

end Statement

/-! ### Documents -/

namespace Document
variable {t : PolicyType} {v : Json} {d d' : Document}

theorem toJson_of_validate (hcanonical : v.Canonical) (h : validate v t = .ok d) :
    d.toJson = v.normalForm := by
  obtain ⟨members, statement, items, rfl, hnames, hversion, hstatement, hitems, hstatements⟩ :=
    validate_eq_ok_iff.1 h
  have hlisted : statement.normalStatements = .array (items.map Json.normalStatement) := by
    rcases listed_eq_ok_iff.1 hitems with rfl | ⟨_, rfl, rfl⟩ <;> rfl
  have hwritten : d.statements.map Statement.toJson = items.map Json.normalStatement := by
    have hmember := Json.Members.mem_of_get?_eq_some hstatement
    have hcanonicalItems := canonical_of_listed (hcanonical.2.canonical_of_mem hmember) hitems
    exact Statement.map_toJson_eq_map_normalStatement hcanonicalItems hstatements
  have hvalue : ∀ element : DocumentElement,
      some (d.value Statement.toJson element) =
        (Json.Members.get? members element.text).map fun v =>
          if element.text = "Statement" then v.normalStatements else v := by
    intro element
    cases element with
    | version =>
      rw [hversion]
      rfl
    | statement =>
      rw [hstatement, value, hwritten, ← hlisted]
      rfl
  refine congrArg Json.object ?_
  refine (Json.Members.sorted_ofList _).ext_words DocumentElement hcanonical.1.mapValues
    (fun _ => exists_text_of_mem_names) ?_ fun element => ?_
  · rw [Json.Members.names_mapValues]
    exact hnames
  · rw [Json.Members.get?_mapValues]
    exact (get?_ofList_members _ element).trans (hvalue element)

theorem toJson_injective (h : d.toJson = d'.toJson) : d = d' := by
  have hvalue : ∀ element,
      d.value Statement.toJson element = d'.value Statement.toJson element := by
    intro element
    have hget := get?_ofList_members (d := d) Statement.toJson element
    rw [Json.object.inj h, get?_ofList_members] at hget
    exact (Option.some.inj hget).symm
  obtain ⟨version, statements⟩ := d
  obtain ⟨version', statements'⟩ := d'
  obtain rfl : version = version' := Worded.text_injective (Json.string.inj (hvalue .version))
  obtain rfl : statements = statements' :=
    List.map_injective_iff.2 (fun _ _ => Statement.toJson_injective)
      (Json.array.inj (hvalue .statement))
  rfl

/-- **Validation loses nothing and invents nothing.**  A document that was read is written as the
normal form of the value it was read from, so that two values are the same document exactly if they
have the same normal form. -/
theorem validate_normalForm :
    (∀ v t d, v.Canonical → validate v t = .ok d → d.toJson = v.normalForm) ∧
      ∀ v v' t t' d d', v.Canonical → v'.Canonical →
        validate v t = .ok d → validate v' t' = .ok d' →
          (d = d' ↔ v.normalForm = v'.normalForm) := by
  refine ⟨fun v t d hv h => toJson_of_validate hv h, ?_⟩
  intro v v' t t' d d' hv hv' h h'
  rw [← toJson_of_validate hv h, ← toJson_of_validate hv' h']
  exact ⟨congrArg toJson, toJson_injective⟩

/-- The audit policy has its statement outside of an array and its resource in one, the value that
it is written as the other way round.  They are the same document. -/
theorem auditPolicy_normalForm :
    auditPolicy.canonical.Canonical ∧ auditDocument.toJson.Canonical ∧
      validate auditPolicy.canonical .resource = .ok auditDocument ∧
      validate auditDocument.toJson .resource = .ok auditDocument ∧
      auditDocument.toJson = auditPolicy.canonical.normalForm ∧
      auditPolicy.canonical ≠ auditDocument.toJson ∧
      auditPolicy.canonical.normalForm = auditDocument.toJson.normalForm := by
  have hcanonical : auditPolicy.canonical.Canonical := Json.canonical_canonical _
  have hcanonical' : auditDocument.toJson.Canonical := by
    have heq : auditDocument.toJson.canonical = auditDocument.toJson := by decide
    rw [← heq]
    exact Json.canonical_canonical _
  have hread : validate auditPolicy.canonical .resource = .ok auditDocument := by decide
  have hread' : validate auditDocument.toJson .resource = .ok auditDocument := by decide
  obtain ⟨hwritten, hsame⟩ := validate_normalForm
  exact ⟨hcanonical, hcanonical', hread, hread', hwritten _ _ _ hcanonical hread, by decide,
    (hsame _ _ _ _ _ _ hcanonical hcanonical' hread hread').1 rfl⟩

end Document

end AccessPolicy
