import AccessPolicy.Proofs.LastSettings
import AccessPolicy.Proofs.WrittenDocuments

/-!
# Writing a policy and reading it again

The text of a document is read back as the document, if it can be read at all.  What can stand in
the way is the depth of a condition.  A written document has all statements in an array, so where
this is how they were read a condition is as deep as it was (`Document.fits_condition`), and there
is room for it.  A statement that was read outside of an array is written one level further inside.
If its condition was as deep as it could be it is now too deep, and the text is refused.

Main statement: `Engine.ofText_roundTrip`.
-/

namespace AccessPolicy

/-- The only statement stands outside of an array, and in one its condition would reach level 128,
which is one level further than a document can be read. -/
def Json.AloneTooDeep (v : Json) : Prop :=
  ∃ members statement condition : Members, v = .object members ∧
    members.get? DocumentElement.statement.text = some (.object statement) ∧
    statement.get? Element.condition.text = some (.object condition) ∧
    3 + (Json.object condition).depth = 128

/-! ### Conditions that were read -/

section
variable {t : PolicyType} {limit level : Nat} {items : List Json} {statements : List Statement}

/-- A condition stands in one of the statements that it was read from. -/
theorem Statement.exists_get?_condition (h : items.map (validate t) = statements.map .ok)
    {s : Statement} (hs : s ∈ statements) {condition : Json.Members}
    (hcondition : condition ∈ s.condition) :
    ∃ members : Json.Members, .object members ∈ items ∧
      members.get? Element.condition.text = some (.object condition) := by
  have hread : .ok s ∈ items.map (validate t) := h ▸ List.mem_map_of_mem hs
  obtain ⟨item, hitem, hvalid⟩ := List.mem_map.1 hread
  obtain ⟨⟨members, rfl, hmembers⟩, _⟩ := validate_eq_ok_iff.1 hvalid
  refine ⟨members, hitem, ?_⟩
  rw [hmembers.condition, Option.mem_def.1 hcondition]
  rfl

/-- Conditions stand one level further inside than statements. -/
theorem Statement.fits_condition (hitems : ∀ v ∈ items, v.Fits limit level)
    (h : items.map (validate t) = statements.map .ok) :
    ∀ s ∈ statements, ∀ condition ∈ s.condition,
      (Json.object condition).Fits limit (level + 1) := by
  intro s hs condition hcondition
  obtain ⟨members, hmembers, hget⟩ := exists_get?_condition h hs hcondition
  exact (hitems _ hmembers).get? hget

end

namespace Document
variable {t : PolicyType} {limit : Nat} {v : Json} {d : Document}

theorem canonical_condition (hcanonical : v.Canonical) (h : validate v t = .ok d) :
    ∀ s ∈ d.statements, ∀ condition ∈ s.condition, (Json.object condition).Canonical := by
  obtain ⟨members, statement, items, rfl, _, _, hstatement, hlisted, hitems⟩ :=
    validate_eq_ok_iff.1 h
  intro s hs condition hcondition
  obtain ⟨parts, hparts, hget⟩ := Statement.exists_get?_condition hitems hs hcondition
  have hmember := Json.Members.mem_of_get?_eq_some hstatement
  have hstatements := canonical_of_listed (hcanonical.2.canonical_of_mem hmember) hlisted
  exact (hstatements _ hparts).2.canonical_of_mem (Json.Members.mem_of_get?_eq_some hget)

/-- Conditions are as deep as they are written, or there is one statement outside of an array and
its condition is one level less deep. -/
theorem fits_condition (hfits : v.Fits limit 0) (h : validate v t = .ok d) :
    (∀ s ∈ d.statements, ∀ condition ∈ s.condition, (Json.object condition).Fits limit 3) ∨
      ∃ members statement : Json.Members, v = .object members ∧
        members.get? DocumentElement.statement.text = some (.object statement) ∧
        ∀ s ∈ d.statements, ∀ condition ∈ s.condition,
          statement.get? Element.condition.text = some (.object condition) ∧
            (Json.object condition).Fits limit 2 := by
  obtain ⟨members, statement, items, rfl, _, _, hstatement, hlisted, hitems⟩ :=
    validate_eq_ok_iff.1 h
  have hinside : statement.Fits limit 1 := hfits.get? hstatement
  rcases listed_eq_ok_iff.1 hlisted with rfl | ⟨parts, rfl, rfl⟩
  · left
    exact Statement.fits_condition (Json.fits_array_iff.1 hinside).2 hitems
  · right
    refine ⟨members, parts, rfl, hstatement, fun s hs condition hcondition => ?_⟩
    obtain ⟨parts', hparts, hget⟩ := Statement.exists_get?_condition hitems hs hcondition
    obtain rfl := Json.object.inj (List.mem_singleton.1 hparts)
    exact ⟨hget, hinside.get? hget⟩

/-- The numbers in the conditions can be read again, if they are integers. -/
theorem integral_written (hfits : v.Fits limit 0) (h : validate v t = .ok d)
    (hint : ∀ s ∈ d.statements, ∀ condition ∈ s.condition,
      ∀ n ∈ (Json.object condition).numbers, ∃ i, n = .int i) : d.written.Integral := by
  refine (Json.integral_iff _).2 fun n hn => ?_
  obtain ⟨s, hs, condition, hcondition, hn⟩ := exists_condition_of_mem_numbers hn
  have hreadable : n.Readable := by
    rcases fits_condition hfits h with hdeep | ⟨_, _, _, _, hdeep⟩
    · exact (hdeep s hs condition hcondition).readable n hn
    · exact (hdeep s hs condition hcondition).2.readable n hn
  obtain ⟨i, rfl⟩ := hint s hs condition hcondition n hn
  exact hreadable

/-- The condition of a statement that stands alone is that of a statement of the document. -/
theorem exists_condition_of_alone {members statement condition : Json.Members}
    (h : validate (.object members) t = .ok d)
    (hstatement : members.get? DocumentElement.statement.text = some (.object statement))
    (hget : statement.get? Element.condition.text = some (.object condition)) :
    ∃ s ∈ d.statements, condition ∈ s.condition := by
  obtain ⟨_, statement', items, hmembers, _, _, hstatement', hlisted, hitems⟩ :=
    validate_eq_ok_iff.1 h
  obtain rfl := Json.object.inj hmembers
  obtain rfl := Option.some.inj (hstatement.symm.trans hstatement')
  obtain rfl := Except.ok.inj hlisted
  rw [List.map_cons, eq_comm, List.map_eq_cons_iff] at hitems
  obtain ⟨s, rest, hstatements, hs, _⟩ := hitems
  refine ⟨s, hstatements ▸ List.mem_cons_self, ?_⟩
  obtain ⟨hread, _⟩ := Statement.validate_object_eq_ok_iff.1 hs.symm
  obtain ⟨condition', hcondition, hobject⟩ :=
    Option.map_eq_some_iff.1 (hread.condition.symm.trans hget)
  exact Json.object.inj hobject ▸ hcondition

/-- A document that was read is only written too deep if its statement stood alone. -/
theorem limit_lt_depth_written_iff (hfits : v.Fits Json.depthLimit 0) (h : validate v t = .ok d) :
    Json.depthLimit < d.written.depth ↔ v.AloneTooDeep := by
  -- the document, the array and the statement leave room for 124 levels
  have hwritten : d.written.depth ≤ Json.depthLimit ↔
      ∀ s ∈ d.statements, ∀ condition ∈ s.condition, (Json.object condition).depth ≤ 124 :=
    depth_written_le_iff (by decide)
  have hlimit : Json.depthLimit = 127 := rfl
  constructor
  · -- a condition that is too deep now had one level less before
    intro hlt
    have hdeep : ¬ ∀ s ∈ d.statements, ∀ condition ∈ s.condition,
        (Json.object condition).depth ≤ 124 := fun hle => Nat.not_le.2 hlt (hwritten.2 hle)
    push Not at hdeep
    obtain ⟨s, hs, condition, hcondition, hdeep⟩ := hdeep
    rcases fits_condition hfits h with hcond | ⟨members, statement, hv, hstatement, hcond⟩
    · have hle := (hcond s hs condition hcondition).depth_le
      omega
    · obtain ⟨hget, hcond⟩ := hcond s hs condition hcondition
      have hle := hcond.depth_le
      exact ⟨members, statement, condition, hv, hstatement, hget, by omega⟩
  · rintro ⟨members, statement, condition, rfl, hstatement, hget, hdepth⟩
    obtain ⟨s, hs, hcondition⟩ := exists_condition_of_alone h hstatement hget
    refine Nat.not_le.1 fun hle => ?_
    have hroom := hwritten.1 hle s hs condition hcondition
    omega

/-! ### Reading a written document -/

theorem ofText_text (hcanonical : ∀ s ∈ d.statements, ∀ condition ∈ s.condition,
      (Json.object condition).Canonical) (hintegral : d.written.Integral)
    (hdepth : d.written.depth ≤ Json.depthLimit) : Json.ofText d.text = .ok d.toJson := by
  rw [Json.ofText, text, Json.read_text hintegral hdepth]
  exact congrArg Except.ok (canonical_written hcanonical)

theorem ofText_text_of_limit_lt (hintegral : d.written.Integral)
    (hdepth : Json.depthLimit < d.written.depth) : Json.ofText d.text = .error .malformed := by
  rw [Json.ofText, text, Json.read_text_of_limit_lt hintegral hdepth]
  rfl

end Document

/-! ### Engines -/

theorem Engine.ofText_eq_ok_iff {json : String} {t : PolicyType} {e : Engine} :
    ofText json t = .ok e ↔
      ∃ v d, Json.ofText json = .ok v ∧ Document.validate v t = .ok d ∧
        e = { document := d, policyType := t, catalog := .builtin, matcher := .glob,
              default := .denied } :=
  Builder.build_eq_ok_iff

/-- **The text of a document is read as the document.**  Let an engine be built from a text, and let
its conditions hold no numbers other than integers.  Then the text of its document builds the same
engine, if that text is not too deep, which it never is if the statements were read from an array.
It is too deep exactly if there was one statement outside of an array with a condition of full
depth, and is then refused as malformed. -/
theorem Engine.ofText_roundTrip (json : String) (t : PolicyType) (e : Engine)
    (hbuild : ofText json t = .ok e)
    (hint : ∀ s ∈ e.document.statements, ∀ condition ∈ s.condition,
      ∀ n ∈ (Json.object condition).numbers, ∃ i, n = .int i) :
    (e.document.written.depth ≤ 127 → ofText e.document.text t = .ok e) ∧
      (∀ (members : Json.Members) items, Json.ofText json = .ok (.object members) →
        members.get? DocumentElement.statement.text = some (.array items) →
          e.document.written.depth ≤ 127) ∧
      (ofText e.document.text t ≠ .ok e → ∃ v, Json.ofText json = .ok v ∧ v.AloneTooDeep) ∧
      ∀ v, Json.ofText json = .ok v → v.AloneTooDeep →
        ofText e.document.text t = .error (.unreadable .malformed) := by
  obtain ⟨v, d, hread, hvalidate, rfl⟩ := ofText_eq_ok_iff.1 hbuild
  obtain ⟨hfits, hcanonical⟩ := Json.fits_of_ofText hread
  have hintegral := Document.integral_written hfits hvalidate hint
  have hagain : d.written.depth ≤ Json.depthLimit → ofText d.text t = ofText json t := by
    intro hdepth
    have hread' := Document.ofText_text (Document.canonical_condition hcanonical hvalidate)
      hintegral hdepth
    have hvalidate' : Document.validate d.toJson t = .ok d :=
      Document.validate_toJson_eq_ok_iff.2 (Document.admitted_of_validate hvalidate)
    rw [hbuild]
    exact ofText_eq_ok_iff.2 ⟨d.toJson, d, hread', hvalidate', rfl⟩
  have htooDeep := Document.limit_lt_depth_written_iff hfits hvalidate
  refine ⟨fun hdepth => (hagain hdepth).trans hbuild, ?_, ?_, ?_⟩
  · intro members items hread' hstatement
    obtain rfl := Except.ok.inj (hread.symm.trans hread')
    refine Nat.not_lt.1 fun hlt => ?_
    obtain ⟨members', statement, condition, hmembers, hstatement', _⟩ := htooDeep.1 hlt
    obtain rfl := Json.object.inj hmembers
    rw [hstatement] at hstatement'
    cases hstatement'
  · intro hne
    refine ⟨v, hread, htooDeep.1 (Nat.not_le.1 fun hdepth => ?_)⟩
    exact hne ((hagain hdepth).trans hbuild)
  · intro v' hread' hv'
    obtain rfl := Except.ok.inj (hread.symm.trans hread')
    exact Builder.build_eq_unreadable_iff.2
      (Document.ofText_text_of_limit_lt hintegral (htooDeep.2 hv'))

/-! ### A policy with one statement -/

/-- A policy with one statement, which stands outside of an array and has a given condition. -/
def alonePolicy (condition : Json.Members) : Json :=
  .object [("Statement", .object
      [("Action", .string "s3:GetObject"), ("Condition", .object condition),
        ("Effect", .string "Allow"), ("Resource", .string "arn:aws:s3:::notes/*")]),
    ("Version", .string "2012-10-17")]

/-- The engine for a policy with one statement. -/
def aloneEngine (condition : Json.Members) : Engine where
  document :=
    { version := .v2012
      statements :=
        [{ effect := .allow
           action := .is ⟨["s3:GetObject"], by decide, by decide⟩
           resource := some (.is ⟨["arn:aws:s3:::notes/*"], by decide, by decide⟩)
           principal := none
           condition := some condition }] }
  policyType := .identity
  catalog := .builtin
  matcher := .glob
  default := .denied

/-- A number inside of arrays. -/
def Json.nested : Nat → Json
  | 0 => .number (.int 1)
  | levels + 1 => .array [nested levels]

/-- A condition with one operator, which has a number inside of arrays. -/
def nestedCondition (levels : Nat) : Json.Members := [("NumericEquals", .nested levels)]

theorem Json.depth_nested (levels : Nat) : (nested levels).depth = levels := by
  induction levels with
  | zero => rfl
  | succ levels ih =>
    rw [nested, depth, depthOfItems, depthOfItems, ih, Nat.max_zero]

theorem Json.numbers_nested (levels : Nat) : (nested levels).numbers = [.int 1] := by
  induction levels with
  | zero => rfl
  | succ levels ih =>
    rw [nested, numbers, numbersOfItems, numbersOfItems, ih, List.append_nil]

theorem Json.canonical_nested (levels : Nat) : (nested levels).canonical = nested levels := by
  induction levels with
  | zero => rfl
  | succ levels ih => rw [nested, canonical, canonicalItems, canonicalItems, ih]

section
variable {levels : Nat}

theorem depth_nestedCondition (levels : Nat) :
    (Json.object (nestedCondition levels)).depth = levels + 1 := by
  rw [nestedCondition, Json.depth, Json.depthOfMembers, Json.depthOfMembers, Json.depth_nested,
    Nat.max_zero]

theorem numbers_nestedCondition (levels : Nat) :
    (Json.object (nestedCondition levels)).numbers = [.int 1] := by
  rw [nestedCondition, Json.numbers, Json.numbersOfMembers, Json.numbersOfMembers,
    Json.numbers_nested, List.append_nil]

theorem canonical_alonePolicy : (alonePolicy (nestedCondition levels)).canonical =
    alonePolicy (nestedCondition levels) := by
  have hcondition : Json.canonicalMembers (nestedCondition levels) = nestedCondition levels := by
    rw [nestedCondition, Json.canonicalMembers, Json.canonical_nested]
    rfl
  simp only [alonePolicy, Json.canonical, Json.canonicalMembers, hcondition]
  rfl

theorem integral_alonePolicy : (alonePolicy (nestedCondition levels)).Integral := by
  refine (Json.integral_iff _).2 fun n hn => ?_
  have hnumber : n ∈ (Json.object (nestedCondition levels)).numbers := by
    simpa [alonePolicy, Json.numbers, Json.numbersOfMembers] using hn
  rw [numbers_nestedCondition, List.mem_singleton] at hnumber
  subst hnumber
  show Json.Numeral.InRange 1
  exact ⟨by decide, by decide⟩

/-- The policy is read with up to 125 levels in its condition. -/
theorem ofText_alonePolicy (h : levels ≤ 124) :
    Json.ofText (alonePolicy (nestedCondition levels)).text =
      .ok (alonePolicy (nestedCondition levels)) := by
  have hdepth : (alonePolicy (nestedCondition levels)).depth ≤ Json.depthLimit := by
    show _ ≤ 127
    have hcondition := depth_nestedCondition levels
    simp only [alonePolicy, Json.depth, Json.depthOfMembers] at hcondition ⊢
    omega
  rw [Json.ofText, Json.read_text integral_alonePolicy hdepth]
  exact congrArg Except.ok canonical_alonePolicy

end

/-- The audit policy with its statement in an array, as it is written. -/
theorem ofText_auditDocument : Json.ofText auditDocument.text = .ok auditDocument.toJson := by
  have hintegral : auditDocument.written.Integral := by
    refine (Json.integral_iff _).2 fun n hn => ?_
    have hnone : auditDocument.written.numbers = [] := by decide
    rw [hnone] at hn
    cases hn
  have hdepth : auditDocument.written.depth ≤ Json.depthLimit := by decide
  rw [Json.ofText, Document.text, Json.read_text hintegral hdepth]
  exact congrArg Except.ok (by decide : auditDocument.written.canonical = auditDocument.toJson)

/-- With 124 levels in its condition the policy is read, and its text is read again.  With 125
levels it is read, and its text is not.  The written audit policy is read from an array. -/
theorem Engine.ofText_alonePolicy_roundTrip :
    (ofText (alonePolicy (nestedCondition 123)).text .identity =
        .ok (aloneEngine (nestedCondition 123)) ∧
      ofText (aloneEngine (nestedCondition 123)).document.text .identity =
        .ok (aloneEngine (nestedCondition 123))) ∧
      (ofText (alonePolicy (nestedCondition 124)).text .identity =
          .ok (aloneEngine (nestedCondition 124)) ∧
        ofText (aloneEngine (nestedCondition 124)).document.text .identity =
          .error (.unreadable .malformed)) ∧
      ∃ e, ofText auditDocument.text .resource = .ok e ∧ e.document = auditDocument ∧
        e.document.written.depth ≤ 127 ∧ ofText e.document.text .resource = .ok e := by
  have hint : ∀ levels, ∀ s ∈ (aloneEngine (nestedCondition levels)).document.statements,
      ∀ condition ∈ s.condition, ∀ n ∈ (Json.object condition).numbers, ∃ i, n = .int i := by
    intro levels s hs condition hcondition n hn
    obtain rfl := List.mem_singleton.1 hs
    obtain rfl := Option.some.inj hcondition
    rw [numbers_nestedCondition, List.mem_singleton] at hn
    exact ⟨1, hn⟩
  have hbuild : ∀ levels ≤ 124, ofText (alonePolicy (nestedCondition levels)).text .identity =
      .ok (aloneEngine (nestedCondition levels)) := fun levels hlevels =>
    ofText_eq_ok_iff.2 ⟨_, _, ofText_alonePolicy hlevels, rfl, rfl⟩
  refine ⟨⟨hbuild 123 (by decide), ?_⟩, ⟨hbuild 124 (by decide), ?_⟩, ?_⟩
  · have hdepth : (aloneEngine (nestedCondition 123)).document.written.depth ≤ 124 + 3 := by
      refine (Document.depth_written_le_iff (by decide)).2 fun s hs condition hcondition => ?_
      obtain rfl := List.mem_singleton.1 hs
      obtain rfl := Option.some.inj hcondition
      exact Nat.le_of_eq (depth_nestedCondition 123)
    exact (ofText_roundTrip _ _ _ (hbuild 123 (by decide)) (hint 123)).1 hdepth
  · have hdeep : (alonePolicy (nestedCondition 124)).AloneTooDeep :=
      ⟨_, _, _, rfl, rfl, rfl, congrArg (3 + ·) (depth_nestedCondition 124)⟩
    exact (ofText_roundTrip _ _ _ (hbuild 124 (by decide)) (hint 124)).2.2.2 _
      (ofText_alonePolicy (by decide)) hdeep
  · let e : Engine :=
      { document := auditDocument, policyType := .resource, catalog := .builtin, matcher := .glob,
        default := .denied }
    have he : ofText auditDocument.text .resource = .ok e :=
      ofText_eq_ok_iff.2 ⟨_, auditDocument, ofText_auditDocument, by decide, rfl⟩
    have hnone : ∀ s ∈ auditDocument.statements, ∀ condition ∈ s.condition,
        ∀ n ∈ (Json.object condition).numbers, ∃ i, n = .int i := by
      intro s hs condition hcondition n hn
      obtain rfl := List.mem_singleton.1 hs
      obtain rfl := Option.some.inj hcondition
      cases hn
    obtain ⟨hagain, hlisted, _⟩ := ofText_roundTrip _ _ e he hnone
    have hdepth : e.document.written.depth ≤ 127 :=
      hlisted _ _ ofText_auditDocument (Document.get?_ofList_members _ .statement)
    exact ⟨e, he, rfl, hdepth, hagain hdepth⟩

end AccessPolicy
