import AccessPolicy.Engine.Evaluation
import AccessPolicy.Proofs.GreedyWalk
import AccessPolicy.Proofs.ResourceNames

/-!
# Resource names as patterns

Resources are matched with patterns as whole texts, and the matcher knows nothing of the fields of a
resource name: a star takes colons like all other characters.  If every field of a pattern describes
that field of a name, the pattern still describes the name, as what is described piece by piece is
described in a row (`Glob.accepts_append`).

The converse needs that the fields in front of the resource part are literal.  All that stands there
(`Arn.head`) then takes itself, and only the resource part is left to the wildcards of the pattern
(`Arn.accepts_text_iff`).  None of these fields has a colon, so that a name which begins like the
pattern has the same fields (`Arn.head_append_inj`).

Main statement: `Arn.glob_fields`.
-/

namespace AccessPolicy.Arn
variable {text text' : String} {arn pattern name : Arn}

/-! ### Fields -/

/-- Every field of a pattern describes that field of a name. -/
structure DescribesFields (pattern name : Arn) : Prop where
  partition : Glob.accepts pattern.partition name.partition = true
  service : Glob.accepts pattern.service name.service = true
  region : Glob.accepts pattern.region name.region = true
  account : Glob.accepts pattern.account name.account = true
  resource : Glob.accepts pattern.resource name.resource = true

/-- The fields in front of the resource part have no wildcards. -/
def HasLiteralFields (arn : Arn) : Prop :=
  ∀ field ∈ [arn.partition, arn.service, arn.region, arn.account],
    '*' ∉ field.toList ∧ '?' ∉ field.toList

/-- What stands in front of the resource part: the word `arn` and four fields, each with a colon
after it. -/
def head (arn : Arn) : String :=
  "arn:" ++ arn.partition ++ ":" ++ arn.service ++ ":" ++ arn.region ++ ":" ++ arn.account ++ ":"

theorem text_eq_head_append (arn : Arn) : arn.text = arn.head ++ arn.resource := rfl

theorem HasLiteralFields.not_mem_head (h : arn.HasLiteralFields) :
    '*' ∉ arn.head.toList ∧ '?' ∉ arn.head.toList := by
  simp only [HasLiteralFields, List.forall_mem_cons, List.not_mem_nil, false_imp_iff,
    implies_true, and_true] at h
  obtain ⟨hpartition, hservice, hregion, haccount⟩ := h
  constructor
  · simp [head, hpartition.1, hservice.1, hregion.1, haccount.1]
  · simp [head, hpartition.2, hservice.2, hregion.2, haccount.2]

/-- The fields of a name that was read can be read off any text that begins like it. -/
theorem cutAt_head_append (h : parse text = .ok arn) (rest : String) :
    Text.CutAt ["arn", arn.partition, arn.service, arn.region, arn.account] (arn.head ++ rest)
      rest := by
  cases parse_eq_iff.1 h with
  | name hcut =>
    obtain ⟨_, hcolons⟩ := cutAt_iff_eq_text.1 hcut
    exact (@cutAt_iff_eq_text _ { arn with resource := rest }).2 ⟨rfl, hcolons⟩

/-- Texts that begin like two names are the same only if the names have the same fields. -/
theorem head_append_inj (h : parse text = .ok arn) (h' : parse text' = .ok name)
    {rest rest' : String} (heq : arn.head ++ rest = name.head ++ rest') :
    arn.partition = name.partition ∧ arn.service = name.service ∧ arn.region = name.region ∧
      arn.account = name.account ∧ rest = rest' := by
  -- the cuts at the first five colons are the same for both
  have hcut := cutAt_head_append h rest
  rw [heq] at hcut
  obtain ⟨hfields, hrest⟩ := hcut.unique (cutAt_head_append h' rest') rfl
  simp only [List.cons.injEq, true_and, and_true] at hfields
  obtain ⟨hpartition, hservice, hregion, haccount⟩ := hfields
  exact ⟨hpartition, hservice, hregion, haccount, hrest⟩

/-! ### Matching -/

/-- A pattern that describes a name field by field describes it as a whole. -/
theorem DescribesFields.accepts_text (h : pattern.DescribesFields name) :
    Glob.accepts pattern.text name.text = true := by
  have hcolon : Glob.accepts ":" ":" = true := Glob.accepts_self ":"
  have hpartition := Glob.accepts_append (Glob.accepts_self "arn:") h.partition
  have hservice := Glob.accepts_append (Glob.accepts_append hpartition hcolon) h.service
  have hregion := Glob.accepts_append (Glob.accepts_append hservice hcolon) h.region
  have haccount := Glob.accepts_append (Glob.accepts_append hregion hcolon) h.account
  exact Glob.accepts_append (Glob.accepts_append haccount hcolon) h.resource

/-- Where only the resource part has wildcards, what stands in front of it takes itself. -/
theorem accepts_text_iff (h : pattern.HasLiteralFields) :
    Glob.accepts pattern.text text = true ↔
      ∃ rest, text = pattern.head ++ rest ∧ Glob.accepts pattern.resource rest = true :=
  Glob.accepts_append_iff h.not_mem_head.1 h.not_mem_head.2

/-- Among names, a pattern with literal fields describes only those with the same fields. -/
theorem accepts_text_iff_fields (h : pattern.HasLiteralFields) (hpattern : parse text = .ok pattern)
    (hname : parse text' = .ok name) :
    Glob.accepts pattern.text name.text = true ↔
      name.partition = pattern.partition ∧ name.service = pattern.service ∧
        name.region = pattern.region ∧ name.account = pattern.account ∧
        Glob.accepts pattern.resource name.resource = true := by
  rw [accepts_text_iff h]
  constructor
  · rintro ⟨rest, heq, haccepts⟩
    rw [text_eq_head_append] at heq
    obtain ⟨hpartition, hservice, hregion, haccount, rfl⟩ := head_append_inj hname hpattern heq
    exact ⟨hpartition, hservice, hregion, haccount, haccepts⟩
  · rintro ⟨hpartition, hservice, hregion, haccount, haccepts⟩
    have hhead : name.head = pattern.head := by
      rw [head, head, hpartition, hservice, hregion, haccount]
    exact ⟨name.resource, by rw [text_eq_head_append, hhead], haccepts⟩

/-- **The glob matcher respects the fields of resource names.**  A pattern that describes a name
field by field describes it as a whole.  If only the resource part of a pattern has wildcards, then
what the pattern describes are the texts that begin with the same fields and go on with anything
that the resource part describes; so it describes no name with another partition, service, region or
account. -/
theorem glob_fields :
    (∀ p r pattern name, parse p = .ok pattern → parse r = .ok name →
      pattern.DescribesFields name → ResourceMatcher.glob r p = true) ∧
    ∀ p pattern, parse p = .ok pattern → pattern.HasLiteralFields →
      (∀ r, ResourceMatcher.glob r p = true ↔
        ∃ rest, r = "arn:" ++ pattern.partition ++ ":" ++ pattern.service ++ ":" ++
          pattern.region ++ ":" ++ pattern.account ++ ":" ++ rest ∧
          Glob.accepts pattern.resource rest = true) ∧
      ∀ r name, parse r = .ok name → (ResourceMatcher.glob r p = true ↔
        name.partition = pattern.partition ∧ name.service = pattern.service ∧
          name.region = pattern.region ∧ name.account = pattern.account ∧
          Glob.accepts pattern.resource name.resource = true) := by
  constructor
  · intro p r pattern name hp hr hfields
    rw [← text_of_parse hp, ← text_of_parse hr]
    exact hfields.accepts_text
  · intro p pattern hp hliteral
    rw [← text_of_parse hp]
    refine ⟨fun r => accepts_text_iff hliteral, fun r name hr => ?_⟩
    rw [← text_of_parse hr]
    exact accepts_text_iff_fields hliteral hp hr

-- a star in front of the resource part takes colons, and so describes a name of another account
example : ResourceMatcher.glob "arn:aws:logs:eu:1:group:2:x" "arn:aws:logs:*:2:x" = true := by cbv

/-- A pattern for the trails of users in one account. -/
def accountTrails : Arn := { trail with resource := "user/?:trail/*" }

/-- The pattern describes a trail of this account, its colon and its line break included, and no
trail of another account. -/
theorem accountTrails_fields :
    parse accountTrails.text = .ok accountTrails ∧ parse trail.text = .ok trail ∧
      accountTrails.DescribesFields trail ∧ accountTrails.HasLiteralFields ∧
      ResourceMatcher.glob trail.text accountTrails.text = true ∧
      parse ({ trail with account := "111122223333" } : Arn).text =
        .ok { trail with account := "111122223333" } ∧
      ResourceMatcher.glob ({ trail with account := "111122223333" } : Arn).text
        accountTrails.text = false := by
  have hpattern : parse accountTrails.text = .ok accountTrails :=
    parse_text (by decide) (by decide) (by decide) (by decide)
  have htrail : parse trail.text = .ok trail :=
    parse_text (by decide) (by decide) (by decide) (by decide)
  have hother : parse ({ trail with account := "111122223333" } : Arn).text = .ok _ :=
    parse_text (by decide) (by decide) (by decide) (by decide)
  have hfields : accountTrails.DescribesFields trail :=
    ⟨Glob.accepts_self _, Glob.accepts_self _, Glob.accepts_self _, Glob.accepts_self _, by cbv⟩
  have hliteral : accountTrails.HasLiteralFields := by
    unfold HasLiteralFields
    decide
  obtain ⟨hdescribes, hconfined⟩ := glob_fields
  refine ⟨hpattern, htrail, hfields, hliteral, hdescribes _ _ _ _ hpattern htrail hfields, hother,
    ?_⟩
  rw [Bool.eq_false_iff, ne_eq, (hconfined _ _ hpattern hliteral).2 _ _ hother]
  rintro ⟨_, _, _, haccount, _⟩
  exact absurd haccount (by decide)

end AccessPolicy.Arn
