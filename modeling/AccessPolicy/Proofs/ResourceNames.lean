import AccessPolicy.Arn
import AccessPolicy.Proofs.Patterns
import Mathlib.Data.List.Basic

/-!
# The fields of a resource name

A resource name is read by cutting it at its first five colons.  `Text.CutAt` says what such a cut
is: so many fields without colons, each with a colon after it, and then the rest, whatever that
holds.  There is one cut only at a given number of colons (`Text.CutAt.unique`), and there is one
exactly if there are that many colons (`Text.exists_cutAt_iff`).

The same fields are captured by a regular expression (`Arn.grammar`), in which each field is a run
of characters other than colons and the rest a run of any characters (`Text.Captures`).

What is read from a text, or what it is refused for, is then a matter of its fields (`Arn.Reads`).

Main statement: `Arn.parse_fields`.
-/

namespace AccessPolicy

/-! ### Cuts at colons -/

/-- The text is the fields, with a colon after each, and the rest.  So it is cut at its first
colons, as many as there are fields. -/
inductive Text.CutAt : List String → String → String → Prop
  | nil (rest : String) : CutAt [] rest rest
  | cons {field text rest : String} {fields : List String} (hfield : ':' ∉ field.toList)
      (h : CutAt fields text rest) : CutAt (field :: fields) (field ++ ":" ++ text) rest

namespace Text
variable {text rest rest' : String} {field : String} {fields fields' : List String}

@[simp] theorem cutAt_nil_iff : CutAt [] text rest ↔ text = rest := by
  constructor
  · intro h
    cases h
    rfl
  · rintro rfl
    exact .nil text

@[simp] theorem cutAt_cons_iff :
    CutAt (field :: fields) text rest ↔
      ∃ after, cut? ':' text = some (field, after) ∧ CutAt fields after rest := by
  constructor
  · intro h
    cases h with
    | cons hfield h => exact ⟨_, cut?_colon_iff.2 ⟨rfl, hfield⟩, h⟩
  · rintro ⟨after, hcut, h⟩
    obtain ⟨rfl, hfield⟩ := cut?_colon_iff.1 hcut
    exact .cons hfield h

/-- There is one way only to cut a text at a given number of colons. -/
theorem CutAt.unique (h : CutAt fields text rest) (h' : CutAt fields' text rest')
    (hlength : fields.length = fields'.length) : fields = fields' ∧ rest = rest' := by
  induction h generalizing fields' with
  | nil rest =>
    obtain rfl := List.length_eq_zero_iff.1 hlength.symm
    exact ⟨rfl, cutAt_nil_iff.1 h'⟩
  | @cons field text rest fields hfield h ih =>
    cases fields' with
    | nil => cases hlength
    | cons field' fields' =>
      obtain ⟨after, hcut, h'⟩ := cutAt_cons_iff.1 h'
      rw [cut?_colon_iff.2 ⟨rfl, hfield⟩, Option.some.injEq, Prod.mk.injEq] at hcut
      obtain ⟨rfl, rfl⟩ := hcut
      obtain ⟨rfl, rfl⟩ := ih h' (Nat.succ.inj hlength)
      exact ⟨rfl, rfl⟩

/-- Cutting at one colon more is cutting at the first and then what comes after it. -/
theorem exists_cutAt_succ_iff {n : Nat} {P : List String → String → Prop} :
    (∃ fields rest, fields.length = n + 1 ∧ CutAt fields text rest ∧ P fields rest) ↔
      ∃ before after, cut? ':' text = some (before, after) ∧
        ∃ fields rest, fields.length = n ∧ CutAt fields after rest ∧ P (before :: fields) rest := by
  constructor
  · rintro ⟨fields, rest, hlength, h, hP⟩
    cases fields with
    | nil => cases hlength
    | cons field fields =>
      have hlength' : fields.length = n := Nat.succ.inj hlength
      obtain ⟨after, hcut, h⟩ := cutAt_cons_iff.1 h
      exact ⟨field, after, hcut, fields, rest, hlength', h, hP⟩
  · rintro ⟨before, after, hcut, fields, rest, rfl, h, hP⟩
    have h' : CutAt (before :: fields) text rest := cutAt_cons_iff.2 ⟨after, hcut, h⟩
    exact ⟨before :: fields, rest, List.length_cons, h', hP⟩

/-- A text can be cut at as many colons as it has. -/
theorem exists_cutAt_iff {n : Nat} :
    (∃ fields rest, fields.length = n ∧ CutAt fields text rest) ↔ n ≤ text.toList.count ':' := by
  induction n generalizing text with
  | zero => exact iff_of_true ⟨[], text, rfl, .nil text⟩ (Nat.zero_le _)
  | succ n ih =>
    have hsucc := @exists_cutAt_succ_iff text n fun _ _ => True
    simp only [and_true, ih] at hsucc
    rw [hsucc]
    -- a text without colons is not cut; otherwise its first colon is one more than those after it
    cases hcut : cut? ':' text with
    | none =>
      have hcount : text.toList.count ':' = 0 := List.count_eq_zero.2 (cut?_eq_none_iff.1 hcut)
      rw [hcount]
      simp
    | some parts =>
      obtain ⟨before, after⟩ := parts
      obtain ⟨rfl, hbefore⟩ := cut?_colon_iff.1 hcut
      have hcount : (before ++ ":" ++ after).toList.count ':' = after.toList.count ':' + 1 := by
        simp [List.count_eq_zero.2 hbefore, Nat.add_comm]
      rw [hcount]
      simp

/-! ### Expressions with groups -/

/-- An item of a regular expression: a literal text, or a group for a run of characters of some
kind. -/
inductive Item
  | literal (text : String)
  | group (allowed : Char → Bool)

/-- An expression matches the whole of a text, and its groups capture the texts that are listed. -/
inductive Captures : List Item → String → List String → Prop
  | nil : Captures [] "" []
  | literal (text : String) {items : List Item} {rest : String} {groups : List String}
      (h : Captures items rest groups) : Captures (.literal text :: items) (text ++ rest) groups
  | group {allowed : Char → Bool} {run : String} (hrun : ∀ c ∈ run.toList, allowed c = true)
      {items : List Item} {rest : String} {groups : List String} (h : Captures items rest groups) :
      Captures (.group allowed :: items) (run ++ rest) (run :: groups)

/-- The expression `([^:]*):` for each of `n` fields, and `(.*)` for the rest. -/
def fieldItems : Nat → List Item
  | 0 => [.group fun _ => true]
  | n + 1 => .group (· ≠ ':') :: .literal ":" :: fieldItems n

variable {groups : List String}

@[simp] theorem captures_rest_iff : Captures (fieldItems 0) text groups ↔ groups = [text] := by
  constructor
  · intro h
    cases h with
    | group _ h =>
      cases h
      simp
  · rintro rfl
    have h : Captures (fieldItems 0) (text ++ "") [text] := .group (fun _ _ => rfl) .nil
    rwa [String.append_empty] at h

/-- What the group of a field matches ends at the first colon. -/
@[simp] theorem captures_field_iff {n : Nat} :
    Captures (fieldItems (n + 1)) text groups ↔
      ∃ before after groups', cut? ':' text = some (before, after) ∧
        Captures (fieldItems n) after groups' ∧ groups = before :: groups' := by
  have hkind : ∀ run : String, (∀ c ∈ run.toList, decide (c ≠ ':') = true) ↔ ':' ∉ run.toList := by
    intro run
    simp only [decide_eq_true_eq]
    exact ⟨fun h hmem => h _ hmem rfl, fun h c hc hcolon => h (hcolon ▸ hc)⟩
  simp only [cut?_colon_iff]
  constructor
  · intro h
    cases h with
    | group hrun h =>
      cases h with
      | literal _ h => exact ⟨_, _, _, ⟨String.append_assoc.symm, (hkind _).1 hrun⟩, h, rfl⟩
  · rintro ⟨before, after, groups', ⟨rfl, hbefore⟩, h, rfl⟩
    rw [String.append_assoc]
    exact .group ((hkind before).2 hbefore) (.literal ":" h)

/-- What the groups capture are the fields and the rest of a cut. -/
theorem captures_fieldItems_iff {n : Nat} :
    Captures (fieldItems n) text groups ↔
      ∃ fields rest, fields.length = n ∧ CutAt fields text rest ∧ groups = fields ++ [rest] := by
  induction n generalizing text groups with
  | zero =>
    rw [captures_rest_iff]
    constructor
    · rintro rfl
      exact ⟨[], text, rfl, .nil text, rfl⟩
    · rintro ⟨fields, rest, hlength, h, rfl⟩
      obtain rfl := List.length_eq_zero_iff.1 hlength
      rw [cutAt_nil_iff.1 h, List.nil_append]
  | succ n ih =>
    rw [captures_field_iff, exists_cutAt_succ_iff]
    simp only [ih]
    constructor
    · rintro ⟨before, after, _, hcut, ⟨fields, rest, hlength, h, rfl⟩, rfl⟩
      exact ⟨before, after, hcut, fields, rest, hlength, h, rfl⟩
    · rintro ⟨before, after, hcut, fields, rest, hlength, h, rfl⟩
      exact ⟨before, after, _, hcut, ⟨fields, rest, hlength, h, rfl⟩, rfl⟩

end Text

/-! ### Resource names -/

namespace Arn
variable {text : String} {arn : Arn} {groups : List String}

/-- The grammar of resource names, `arn:([^:]*):([^:]*):([^:]*):([^:]*):(.*)` from the first
character of a text to the last.  Line breaks are characters like all others. -/
def grammar : List Text.Item := .literal "arn:" :: Text.fieldItems 4

/-- A text has this partition, this service, this region, this account and this resource part after
the first field `arn`. -/
theorem captures_grammar_iff :
    Text.Captures grammar text groups ↔
      ∃ arn : Arn,
        Text.CutAt ["arn", arn.partition, arn.service, arn.region, arn.account] text arn.resource ∧
        groups = [arn.partition, arn.service, arn.region, arn.account, arn.resource] := by
  constructor
  · intro h
    cases h with
    | literal _ h =>
      obtain ⟨fields, rest, hlength, hcut, rfl⟩ := Text.captures_fieldItems_iff.1 h
      match fields, hlength with
      | [partition, service, region, account], _ =>
        exact ⟨⟨partition, service, region, account, rest⟩, .cons (by decide) hcut, rfl⟩
  · rintro ⟨arn, hcut, rfl⟩
    cases hcut with
    | cons _ hcut =>
      exact .literal "arn:" (Text.captures_fieldItems_iff.2 ⟨_, _, rfl, hcut, rfl⟩)

theorem ofFields?_eq_some_iff :
    ofFields? text = some arn ↔
      Text.CutAt ["arn", arn.partition, arn.service, arn.region, arn.account] text
        arn.resource := by
  unfold ofFields?
  obtain ⟨partition, service, region, account, resource⟩ := arn
  simp [Text.cutAt_cons_iff, Text.cutAt_nil_iff, Option.bind_eq_some_iff]

/-! ### Reading -/

/-- What is read from a text, by the fields it is cut into at its first five colons. -/
inductive Reads (text : String) : Except ArnError Arn → Prop
  | colons (h : text.toList.count ':' < 5) : Reads text (.error (.malformed text))
  | scheme {scheme partition service region account resource : String}
      (hcut : Text.CutAt [scheme, partition, service, region, account] text resource)
      (h : scheme ≠ "arn") : Reads text (.error (.malformed text))
  | partition {partition service region account resource : String}
      (hcut : Text.CutAt ["arn", partition, service, region, account] text resource)
      (h : partition ∉ ["*", "aws", "aws-cn", "aws-us-gov"]) :
      Reads text (.error (.partition partition))
  | service {partition region account resource : String}
      (hcut : Text.CutAt ["arn", partition, "", region, account] text resource)
      (hpartition : partition ∈ ["*", "aws", "aws-cn", "aws-us-gov"]) :
      Reads text (.error .emptyService)
  | resource {partition service region account : String}
      (hcut : Text.CutAt ["arn", partition, service, region, account] text "")
      (hpartition : partition ∈ ["*", "aws", "aws-cn", "aws-us-gov"]) (hservice : service ≠ "") :
      Reads text (.error .emptyResource)
  | name {arn : Arn}
      (hcut : Text.CutAt ["arn", arn.partition, arn.service, arn.region, arn.account] text
        arn.resource)
      (hpartition : arn.partition ∈ ["*", "aws", "aws-cn", "aws-us-gov"])
      (hservice : arn.service ≠ "") (hresource : arn.resource ≠ "") : Reads text (.ok arn)

theorem parse_of_cutAt {partition service region account resource : String}
    (hcut : Text.CutAt ["arn", partition, service, region, account] text resource) :
    parse text =
      if partition ∉ ["*", "aws", "aws-cn", "aws-us-gov"] then .error (.partition partition)
      else if service = "" then .error .emptyService
      else if resource = "" then .error .emptyResource
      else .ok ⟨partition, service, region, account, resource⟩ := by
  have hfields : ofFields? text = some ⟨partition, service, region, account, resource⟩ :=
    ofFields?_eq_some_iff.2 hcut
  rw [parse, hfields]
  rfl

theorem parse_of_forall_not_cutAt
    (h : ∀ arn : Arn, ¬ Text.CutAt ["arn", arn.partition, arn.service, arn.region, arn.account] text
      arn.resource) :
    parse text = .error (.malformed text) := by
  have hfields : ofFields? text = none :=
    Option.eq_none_iff_forall_ne_some.2 fun arn harn => h arn (ofFields?_eq_some_iff.1 harn)
  rw [parse, hfields]

theorem Reads.parse_eq {result : Except ArnError Arn} (h : Reads text result) :
    parse text = result := by
  cases h with
  | colons h =>
    refine parse_of_forall_not_cutAt fun arn hcut => ?_
    have hcolons : 5 ≤ text.toList.count ':' := Text.exists_cutAt_iff.1 ⟨_, _, rfl, hcut⟩
    omega
  | scheme hcut h =>
    refine parse_of_forall_not_cutAt fun arn hcut' => h ?_
    obtain ⟨hfields, _⟩ := hcut.unique hcut' rfl
    exact (List.cons.inj hfields).1
  | partition hcut h => rw [parse_of_cutAt hcut, if_pos h]
  | service hcut hpartition =>
    rw [parse_of_cutAt hcut, if_neg (not_not_intro hpartition), if_pos rfl]
  | resource hcut hpartition hservice =>
    rw [parse_of_cutAt hcut, if_neg (not_not_intro hpartition), if_neg hservice, if_pos rfl]
  | name hcut hpartition hservice hresource =>
    rw [parse_of_cutAt hcut, if_neg (not_not_intro hpartition), if_neg hservice, if_neg hresource]

/-- Something is read from every text. -/
theorem exists_reads (text : String) : ∃ result, Reads text result := by
  rcases Nat.lt_or_ge (text.toList.count ':') 5 with hcolons | hcolons
  · exact ⟨_, .colons hcolons⟩
  · obtain ⟨fields, resource, hlength, hcut⟩ := Text.exists_cutAt_iff.2 hcolons
    match fields, hlength with
    | [scheme, partition, service, region, account], _ =>
      by_cases hscheme : scheme = "arn"
      · subst hscheme
        by_cases hpartition : partition ∈ ["*", "aws", "aws-cn", "aws-us-gov"]
        · by_cases hservice : service = ""
          · subst hservice
            exact ⟨_, .service hcut hpartition⟩
          · by_cases hresource : resource = ""
            · subst hresource
              exact ⟨_, .resource hcut hpartition hservice⟩
            · exact ⟨.ok ⟨partition, service, region, account, resource⟩,
                .name hcut hpartition hservice hresource⟩
        · exact ⟨_, .partition hcut hpartition⟩
      · exact ⟨_, .scheme hcut hscheme⟩

theorem parse_eq_iff {result : Except ArnError Arn} : parse text = result ↔ Reads text result := by
  refine ⟨?_, Reads.parse_eq⟩
  rintro rfl
  obtain ⟨result, h⟩ := exists_reads text
  rwa [h.parse_eq]

/-! ### Writing -/

/-- A name as it is written is cut into its fields, if none of them has a colon. -/
theorem cutAt_iff_eq_text :
    Text.CutAt ["arn", arn.partition, arn.service, arn.region, arn.account] text arn.resource ↔
      text = arn.text ∧ ':' ∉ arn.partition.toList ∧ ':' ∉ arn.service.toList ∧
        ':' ∉ arn.region.toList ∧ ':' ∉ arn.account.toList := by
  have hwritten : arn.text = "arn" ++ ":" ++ (arn.partition ++ ":" ++ (arn.service ++ ":" ++
      (arn.region ++ ":" ++ (arn.account ++ ":" ++ arn.resource)))) := by
    unfold Arn.text
    simp only [String.append_assoc]
    rfl
  rw [hwritten]
  constructor
  · -- the cut is taken apart field by field
    rintro (_ | ⟨_, _ | ⟨hpartition, _ | ⟨hservice, _ | ⟨hregion, _ | ⟨haccount, _ | _⟩⟩⟩⟩⟩)
    exact ⟨rfl, hpartition, hservice, hregion, haccount⟩
  · rintro ⟨rfl, hpartition, hservice, hregion, haccount⟩
    exact .cons (by decide) (.cons hpartition (.cons hservice (.cons hregion (.cons haccount
      (.nil _)))))

theorem text_of_parse (h : parse text = .ok arn) : arn.text = text := by
  cases parse_eq_iff.1 h with
  | name hcut => exact (cutAt_iff_eq_text.1 hcut).1.symm

theorem parse_text (hpartition : arn.partition ∈ ["*", "aws", "aws-cn", "aws-us-gov"])
    (hservice : arn.service ≠ "") (hfields : ':' ∉ arn.service.toList ∧ ':' ∉ arn.region.toList ∧
      ':' ∉ arn.account.toList) (hresource : arn.resource ≠ "") :
    parse arn.text = .ok arn := by
  have hcolons : ∀ partition ∈ ["*", "aws", "aws-cn", "aws-us-gov"], ':' ∉ partition.toList := by
    decide
  have hcut := cutAt_iff_eq_text.2 ⟨rfl, hcolons _ hpartition, hfields⟩
  exact parse_eq_iff.2 (.name hcut hpartition hservice hresource)

/-- **Reading a resource name is cutting it at its first five colons.**  What is read from a text is
settled by the fields between these colons and by what follows the last of them.  The fields are
what the groups of the grammar capture, and as there is one way only to match it, no preference
among matches plays a part.  A name that is read is written as it was, and a name with a partition,
a service and a resource part, whose fields have no colons, is read as it was written. -/
theorem parse_fields (text : String) :
    (∀ result, parse text = result ↔ Reads text result) ∧
    (∀ groups, Text.Captures grammar text groups ↔
      ∃ arn : Arn,
        Text.CutAt ["arn", arn.partition, arn.service, arn.region, arn.account] text arn.resource ∧
        groups = [arn.partition, arn.service, arn.region, arn.account, arn.resource]) ∧
    (∀ groups groups', Text.Captures grammar text groups → Text.Captures grammar text groups' →
      groups = groups') ∧
    (∀ arn, parse text = .ok arn → arn.text = text) ∧
    ∀ arn : Arn, arn.partition ∈ ["*", "aws", "aws-cn", "aws-us-gov"] → arn.service ≠ "" →
      ':' ∉ arn.service.toList ∧ ':' ∉ arn.region.toList ∧ ':' ∉ arn.account.toList →
      arn.resource ≠ "" → parse arn.text = .ok arn := by
  refine ⟨fun _ => parse_eq_iff, fun _ => captures_grammar_iff, ?_, fun _ => text_of_parse,
    fun _ => parse_text⟩
  intro groups groups' h h'
  obtain ⟨arn, hcut, rfl⟩ := captures_grammar_iff.1 h
  obtain ⟨arn', hcut', rfl⟩ := captures_grammar_iff.1 h'
  obtain rfl : arn = arn' :=
    Option.some.inj ((ofFields?_eq_some_iff.2 hcut).symm.trans (ofFields?_eq_some_iff.2 hcut'))
  rfl

/-- A name whose resource part has a colon, a slash and a line break. -/
def trail : Arn := ⟨"aws", "cloudtrail", "us-east-2", "444455556666", "user/1:trail/a\nb"⟩

/-- The name is read as it is written and captured in one way.  With four colons there is no
name. -/
theorem parse_trail :
    parse trail.text = .ok trail ∧
      trail.text = "arn:aws:cloudtrail:us-east-2:444455556666:user/1:trail/a\nb" ∧
      (∀ groups, Text.Captures grammar trail.text groups →
        groups = ["aws", "cloudtrail", "us-east-2", "444455556666", "user/1:trail/a\nb"]) ∧
      parse "arn:aws:s3::notes" = .error (.malformed "arn:aws:s3::notes") := by
  have htext : trail.text = "arn:aws:cloudtrail:us-east-2:444455556666:user/1:trail/a\nb" := by
    decide
  obtain ⟨hreads, hcaptures, hunique, hprint, hparse⟩ := parse_fields trail.text
  have hread : parse trail.text = .ok trail :=
    hparse trail (by decide) (by decide) (by decide) (by decide)
  have hcut : Text.CutAt ["arn", trail.partition, trail.service, trail.region, trail.account]
      trail.text trail.resource := cutAt_iff_eq_text.2 ⟨rfl, by decide⟩
  refine ⟨hread, (hprint trail hread).trans htext, fun groups h => ?_, ?_⟩
  · exact hunique groups _ h ((hcaptures _).2 ⟨trail, hcut, rfl⟩)
  · exact ((parse_fields "arn:aws:s3::notes").1 _).2 (.colons (by decide))

end Arn

end AccessPolicy
