import AccessPolicy.Catalog.Text
import AccessPolicy.Proofs.Reading
import AccessPolicy.Proofs.StatementOrder
import AccessPolicy.Proofs.TokenRows
import Mathlib.Data.List.Dedup
import Mathlib.Data.List.Induction
import Mathlib.Logic.Relation

/-!
# Catalogs from lists and from texts

A catalog is made from services with lists of actions in two ways.  Where it is collected, all lists
of a service are joined (`Catalog.ofPairs`); where it is loaded from a text, the last one counts
(`Catalog.ofLastPairs`).  Both are told by the lists that are given for a service, in order
(`Catalog.listsFor`): the first enters what is in any of them (`Catalog.actionsFor?_ofPairs`), the
second what is in the last one (`Catalog.actionsFor?_ofLastPairs`).

What is collected therefore depends only on which services there are and on which actions are given
for each of them somewhere (`Catalog.SameContent`).  This stays as it is when pairs are put in
another order, cut or joined, or actions repeated (`Catalog.Rearrangement`).

Main statement: `Catalog.ofPairs_collects`.
-/

namespace AccessPolicy.Catalog

/-- Services, each with a list of actions. -/
abbrev Pairs := List (String × List String)

variable {pairs pairs' : Pairs} {service : String} {actions : List String}

/-! ### The lists for a service -/

/-- The lists of actions that are given for a service, in order. -/
def listsFor (pairs : Pairs) (service : String) : List (List String) :=
  pairs.filterMap fun pair => if pair.1 = service then some pair.2 else none

@[simp] theorem mem_listsFor_iff :
    actions ∈ listsFor pairs service ↔ (service, actions) ∈ pairs := by
  unfold listsFor
  rw [List.mem_filterMap]
  constructor
  · rintro ⟨⟨s, given⟩, hpair, hgiven⟩
    split_ifs at hgiven with hs
    obtain rfl := Option.some.inj hgiven
    exact hs ▸ hpair
  · intro h
    exact ⟨(service, actions), h, if_pos rfl⟩

theorem listsFor_eq_nil_iff :
    listsFor pairs service = [] ↔ ¬ ∃ actions, (service, actions) ∈ pairs := by
  simp only [List.eq_nil_iff_forall_not_mem, mem_listsFor_iff, not_exists]

@[simp] theorem listsFor_concat_self (pairs : Pairs) (service : String) (actions : List String) :
    listsFor (pairs ++ [(service, actions)]) service = listsFor pairs service ++ [actions] := by
  simp [listsFor, List.filterMap_append]

theorem listsFor_concat_of_ne {s : String} (h : s ≠ service) :
    listsFor (pairs ++ [(s, actions)]) service = listsFor pairs service := by
  simp [listsFor, List.filterMap_append, h]

/-- A service is given as many lists as it has pairs. -/
theorem length_listsFor (pairs : Pairs) (service : String) :
    (listsFor pairs service).length = (pairs.map (·.1)).count service := by
  induction pairs using List.reverseRecOn with
  | nil => rfl
  | append_singleton pairs pair ih =>
    obtain ⟨s, actions⟩ := pair
    rw [List.map_append, List.count_append, ← ih]
    by_cases hs : s = service
    · subst hs
      simp
    · simp [listsFor_concat_of_ne hs, hs]

/-! ### Collecting and overwriting -/

@[simp] theorem ofPairs_concat (pairs : Pairs) (service : String) (actions : List String) :
    ofPairs (pairs ++ [(service, actions)]) = (ofPairs pairs).add service actions := by
  rw [ofPairs, List.foldl_append]
  rfl

@[simp] theorem ofLastPairs_concat (pairs : Pairs) (service : String) (actions : List String) :
    ofLastPairs (pairs ++ [(service, actions)]) = (ofLastPairs pairs).put service actions := by
  rw [ofLastPairs, List.foldl_append]
  rfl

/-- What is collected for a service is in one of its lists. -/
theorem actionsFor?_ofPairs (pairs : Pairs) (service : String) :
    (ofPairs pairs).actionsFor? service =
      if listsFor pairs service = [] then none
      else some (Std.ExtTreeSet.ofList (listsFor pairs service).flatten) := by
  induction pairs using List.reverseRecOn with
  | nil => exact actionsFor?_empty service
  | append_singleton pairs pair ih =>
    obtain ⟨s, actions⟩ := pair
    rw [ofPairs_concat, actionsFor?_add]
    by_cases hs : s = service
    · subst hs
      -- the list comes to those before it, if there are any
      have hne : listsFor pairs s ++ [actions] ≠ [] := List.concat_ne_nil _ _
      rw [if_pos rfl, ih, listsFor_concat_self, if_neg hne, Option.some.injEq]
      apply Std.ExtTreeSet.ext_mem
      intro a
      split_ifs with hnone
      · simp [hnone]
      · simp
    · rw [if_neg hs, listsFor_concat_of_ne hs, ih]

/-- What is loaded for a service is in the last of its lists. -/
theorem actionsFor?_ofLastPairs (pairs : Pairs) (service : String) :
    (ofLastPairs pairs).actionsFor? service =
      (listsFor pairs service).getLast?.map fun actions => Std.ExtTreeSet.ofList actions := by
  induction pairs using List.reverseRecOn with
  | nil => exact actionsFor?_empty service
  | append_singleton pairs pair ih =>
    obtain ⟨s, actions⟩ := pair
    rw [ofLastPairs_concat, actionsFor?_put]
    by_cases hs : s = service
    · subst hs
      rw [if_pos rfl, listsFor_concat_self, List.getLast?_concat, Option.map_some]
    · rw [if_neg hs, listsFor_concat_of_ne hs, ih]

theorem actionsFor?_ofPairs_eq_some_iff {known : Names} :
    (ofPairs pairs).actionsFor? service = some known ↔
      (∃ actions, (service, actions) ∈ pairs) ∧
        ∀ a, a ∈ known ↔ ∃ actions, (service, actions) ∈ pairs ∧ a ∈ actions := by
  have hmem : ∀ a, a ∈ Std.ExtTreeSet.ofList (listsFor pairs service).flatten ↔
      ∃ actions, (service, actions) ∈ pairs ∧ a ∈ actions := by
    intro a
    simp
  rw [actionsFor?_ofPairs]
  by_cases hnone : listsFor pairs service = []
  · rw [if_pos hnone]
    exact iff_of_false (fun h => nomatch h) fun h => listsFor_eq_nil_iff.1 hnone h.1
  · have hsome : ∃ actions, (service, actions) ∈ pairs :=
      not_not.1 fun h => hnone (listsFor_eq_nil_iff.2 h)
    rw [if_neg hnone, Option.some.injEq, and_iff_right hsome]
    simp only [← hmem]
    constructor
    · rintro rfl a
      exact Iff.rfl
    · intro h
      exact Std.ExtTreeSet.ext_mem fun a => (h a).symm

theorem actionsFor?_ofLastPairs_eq_some_iff {known : Names} :
    (ofLastPairs pairs).actionsFor? service = some known ↔
      ∃ earlier last, listsFor pairs service = earlier ++ [last] ∧ ∀ a, a ∈ known ↔ a ∈ last := by
  rw [actionsFor?_ofLastPairs, Option.map_eq_some_iff]
  constructor
  · rintro ⟨last, hlast, rfl⟩
    obtain ⟨earlier, hlists⟩ := List.getLast?_eq_some_iff.1 hlast
    exact ⟨earlier, last, hlists, fun a => by simp⟩
  · rintro ⟨earlier, last, hlists, hknown⟩
    refine ⟨last, by rw [hlists, List.getLast?_concat], ?_⟩
    apply Std.ExtTreeSet.ext_mem
    intro a
    rw [hknown]
    simp

/-! ### Services -/

theorem hasService_ofPairs_iff :
    (ofPairs pairs).hasService service = true ↔ ∃ actions, (service, actions) ∈ pairs := by
  rw [hasService_eq_isSome, Option.isSome_iff_exists]
  constructor
  · rintro ⟨known, hknown⟩
    exact (actionsFor?_ofPairs_eq_some_iff.1 hknown).1
  · intro h
    rw [actionsFor?_ofPairs, if_neg fun hnone => listsFor_eq_nil_iff.1 hnone h]
    exact ⟨_, rfl⟩

/-- The services are listed without repetition. -/
theorem services_ofPairs_perm (pairs : Pairs) :
    (ofPairs pairs).services.Perm (pairs.map (·.1)).dedup := by
  have hnodup : (ofPairs pairs).services.Nodup := Std.ExtTreeMap.nodup_keys
  apply (List.perm_ext_iff_of_nodup hnodup (List.nodup_dedup _)).2
  intro s
  have hlisted : s ∈ (ofPairs pairs).services ↔ (ofPairs pairs).hasService s = true :=
    Std.ExtTreeMap.mem_keys
  rw [hlisted, hasService_ofPairs_iff, List.mem_dedup, List.mem_map]
  simp

/-! ### Rearrangements -/

/-- The same services are given, and for each of them the same actions. -/
structure SameContent (pairs pairs' : Pairs) : Prop where
  services : ∀ s, (∃ actions, (s, actions) ∈ pairs') ↔ ∃ actions, (s, actions) ∈ pairs
  actions : ∀ s a, (∃ actions, (s, actions) ∈ pairs' ∧ a ∈ actions) ↔
    ∃ actions, (s, actions) ∈ pairs ∧ a ∈ actions

theorem SameContent.ofPairs_eq (h : SameContent pairs pairs') : ofPairs pairs' = ofPairs pairs := by
  apply ext_actionsFor?
  intro s
  apply Option.ext
  intro known
  rw [actionsFor?_ofPairs_eq_some_iff, actionsFor?_ofPairs_eq_some_iff, h.services s]
  simp only [h.actions s]

/-- The pairs around those that change play no part. -/
theorem SameContent.around {middle middle' : Pairs} (h : SameContent middle middle')
    (before after : Pairs) :
    SameContent (before ++ middle ++ after) (before ++ middle' ++ after) := by
  constructor
  · intro s
    simp only [List.mem_append, exists_or, h.services s]
  · intro s a
    simp only [List.mem_append, or_and_right, exists_or, h.actions s a]

/-- What can be done to pairs without a change to what is collected.  Pairs are joined where one was
cut before. -/
inductive Rearrangement : Pairs → Pairs → Prop
  /-- The pairs are put in another order. -/
  | permute {pairs pairs' : Pairs} (h : pairs'.Perm pairs) : Rearrangement pairs pairs'
  /-- A pair is cut into some for the same service, which together have its actions. -/
  | cut (before after : Pairs) (service : String) {actions : List String}
      {parts : List (List String)} (hne : parts ≠ [])
      (hparts : ∀ a, a ∈ actions ↔ ∃ part ∈ parts, a ∈ part) :
      Rearrangement (before ++ [(service, actions)] ++ after)
        (before ++ parts.map (service, ·) ++ after)
  /-- Actions of a pair are given again. -/
  | duplicate (before after : Pairs) (service : String) {actions actions' : List String}
      (h : Repeats actions actions') :
      Rearrangement (before ++ [(service, actions)] ++ after)
        (before ++ [(service, actions')] ++ after)

theorem Rearrangement.sameContent (h : Rearrangement pairs pairs') : SameContent pairs pairs' := by
  cases h with
  | permute h =>
    constructor
    · intro s
      simp only [h.mem_iff]
    · intro s a
      simp only [h.mem_iff]
  | cut before after service hne hparts =>
    refine SameContent.around ⟨fun s => ?_, fun s a => ?_⟩ before after
    · -- there is at least one part, so that the service is not lost
      obtain ⟨part, hpart⟩ := List.exists_mem_of_ne_nil _ hne
      simp only [List.mem_map, Prod.mk.injEq, List.mem_singleton]
      constructor
      · rintro ⟨_, _, _, rfl, rfl⟩
        exact ⟨_, rfl, rfl⟩
      · rintro ⟨_, rfl, rfl⟩
        exact ⟨part, part, hpart, rfl, rfl⟩
    · simp only [List.mem_map, Prod.mk.injEq, List.mem_singleton]
      constructor
      · rintro ⟨_, ⟨part, hpart, rfl, rfl⟩, ha⟩
        exact ⟨_, ⟨rfl, rfl⟩, (hparts a).2 ⟨part, hpart, ha⟩⟩
      · rintro ⟨_, ⟨rfl, rfl⟩, ha⟩
        obtain ⟨part, hpart, ha⟩ := (hparts a).1 ha
        exact ⟨part, ⟨part, hpart, rfl, rfl⟩, ha⟩
  | duplicate before after service h =>
    refine SameContent.around ⟨fun s => ?_, fun s a => ?_⟩ before after
    · simp
    · simp [h.mem_iff]

/-- Any number of rearrangements, made or undone, change nothing about what is collected. -/
theorem ofPairs_eq_of_eqvGen (h : Relation.EqvGen Rearrangement pairs pairs') :
    ofPairs pairs' = ofPairs pairs := by
  induction h with
  | rel _ _ h => exact h.sameContent.ofPairs_eq
  | refl => rfl
  | symm _ _ _ ih => exact ih.symm
  | trans _ _ _ _ _ ih ih' => exact ih'.trans ih

/-! ### Texts -/

/-- The members of an object in which services with their lists of actions are written. -/
def membersOf (pairs : Pairs) : Json.Members :=
  pairs.map fun pair => (pair.1, .array (pair.2.map .string))

theorem holds_membersOf (pairs : Pairs) : shape.Holds (.object (membersOf pairs)) := by
  intro member hmember
  obtain ⟨pair, _, rfl⟩ := List.mem_map.1 hmember
  intro v hv
  obtain ⟨a, _, rfl⟩ := List.mem_map.1 hv
  trivial

@[simp] theorem mapM_strings?_eq_some_iff {members : Json.Members} :
    members.mapM (fun member : String × Json => member.2.strings?.map (member.1, ·)) =
      some pairs ↔ members = membersOf pairs := by
  induction members generalizing pairs with
  | nil => cases pairs <;> simp [membersOf]
  | cons member members ih =>
    obtain ⟨name, v⟩ := member
    rw [List.mapM_cons]
    constructor
    · intro h
      obtain ⟨pair, hpair, h⟩ := Option.bind_eq_some_iff.1 h
      obtain ⟨actions, hactions, rfl⟩ := Option.map_eq_some_iff.1 hpair
      obtain ⟨rest, hrest, h⟩ := Option.bind_eq_some_iff.1 h
      obtain rfl := Option.some.inj h
      obtain rfl : v = .array (actions.map .string) := Json.strings?_eq_some_iff.1 hactions
      obtain rfl : members = membersOf rest := ih.1 hrest
      rfl
    · intro h
      cases pairs with
      | nil => cases h
      | cons pair pairs =>
        obtain ⟨hmember, hmembers⟩ := List.cons.inj h
        obtain ⟨rfl, hv⟩ := Prod.mk.inj hmember
        rw [Json.strings?_eq_some_iff.2 hv, ih.2 hmembers]
        rfl

/-- A value describes a catalog if it is an object of arrays of strings, the last of which count. -/
theorem ofJson?_eq_some_iff {v : Json} {catalog : Catalog} :
    ofJson? v = some catalog ↔
      ∃ pairs, v = .object (membersOf pairs) ∧ ofLastPairs pairs = catalog := by
  cases v with
  | object members =>
    simp only [ofJson?, Option.map_eq_some_iff, mapM_strings?_eq_some_iff, Json.object.injEq]
  | _ => simp [ofJson?]

@[simp] theorem ofJson?_membersOf (pairs : Pairs) :
    ofJson? (.object (membersOf pairs)) = some (ofLastPairs pairs) :=
  ofJson?_eq_some_iff.2 ⟨pairs, rfl, rfl⟩

/-- An object with these members is loaded so that the last list of a service counts. -/
theorem ofText_of_read {text : String}
    (h : Json.read Json.depthLimit .any text = .ok (.object (membersOf pairs))) :
    ofText text = .ok (ofLastPairs pairs) := by
  have hread := Json.read_of_shape h (holds_membersOf pairs)
  simp [ofText, hread]

theorem depth_membersOf_le (pairs : Pairs) :
    (Json.object (membersOf pairs)).depth ≤ Json.depthLimit := by
  have hdepth : (Json.object (membersOf pairs)).depth ≤ 0 + 1 + 1 := by
    apply Json.depth_object_le_succ_iff.2
    intro member hmember
    obtain ⟨pair, _, rfl⟩ := List.mem_map.1 hmember
    apply Json.depth_array_le_succ_iff.2
    intro v hv
    obtain ⟨a, _, rfl⟩ := List.mem_map.1 hv
    exact Nat.le_refl 0
  exact Nat.le_trans hdepth (by decide)

/-- There is such a text for any services and lists of actions. -/
theorem read_text_membersOf (pairs : Pairs) :
    Json.read Json.depthLimit .any (Json.object (membersOf pairs)).text =
      .ok (.object (membersOf pairs)) := by
  refine Json.read_text ?_ (depth_membersOf_le pairs)
  rw [Json.integral_iff]
  intro n hn
  obtain ⟨member, hmember, hn⟩ := Json.mem_numbersOfMembers_iff.1 hn
  obtain ⟨pair, _, rfl⟩ := List.mem_map.1 hmember
  obtain ⟨v, hv, hn⟩ := Json.mem_numbersOfItems_iff.1 hn
  obtain ⟨a, _, rfl⟩ := List.mem_map.1 hv
  exact absurd hn List.not_mem_nil

/-! ### Both ways together -/

/-- Both ways enter the same for a service if no list before its last one has any action more. -/
theorem actionsFor?_ofLastPairs_eq_iff {earlier : List (List String)} {last : List String}
    (hlists : listsFor pairs service = earlier ++ [last]) :
    (ofLastPairs pairs).actionsFor? service = (ofPairs pairs).actionsFor? service ↔
      ∀ actions ∈ earlier, ∀ a ∈ actions, a ∈ last := by
  rw [actionsFor?_ofLastPairs, actionsFor?_ofPairs, hlists, List.getLast?_concat,
    if_neg (List.concat_ne_nil _ _), Option.map_some, Option.some.injEq]
  constructor
  · intro h actions hactions a ha
    have hflat : a ∈ (earlier ++ [last]).flatten :=
      List.mem_flatten.2 ⟨actions, List.mem_append_left _ hactions, ha⟩
    have hmem : a ∈ Std.ExtTreeSet.ofList last := by
      rw [h]
      simpa using hflat
    simpa using hmem
  · intro h
    apply Std.ExtTreeSet.ext_mem
    intro a
    have hearlier : (∃ actions ∈ earlier, a ∈ actions) → a ∈ last := by
      rintro ⟨actions, hactions, ha⟩
      exact h actions hactions a ha
    simpa using hearlier

theorem ofLastPairs_eq_ofPairs_iff :
    ofLastPairs pairs = ofPairs pairs ↔
      ∀ service earlier last, listsFor pairs service = earlier ++ [last] →
        ∀ actions ∈ earlier, ∀ a ∈ actions, a ∈ last := by
  constructor
  · intro h service earlier last hlists
    exact (actionsFor?_ofLastPairs_eq_iff hlists).1 (by rw [h])
  · intro h
    apply ext_actionsFor?
    intro service
    rcases List.eq_nil_or_concat (listsFor pairs service) with hlists | ⟨earlier, last, hlists⟩
    · -- no list, and no entry either way
      rw [actionsFor?_ofLastPairs, actionsFor?_ofPairs, hlists, if_pos rfl]
      rfl
    · rw [List.concat_eq_append] at hlists
      exact (actionsFor?_ofLastPairs_eq_iff hlists).2 (h service earlier last hlists)

/-- Where no service is repeated, there are no earlier lists. -/
theorem ofLastPairs_eq_ofPairs_of_nodup (h : (pairs.map (·.1)).Nodup) :
    ofLastPairs pairs = ofPairs pairs := by
  apply ofLastPairs_eq_ofPairs_iff.2
  intro service earlier last hlists actions hactions
  have hlength := length_listsFor pairs service
  have hcount := List.nodup_iff_count_le_one.1 h service
  rw [hlists, List.length_append, List.length_singleton] at hlength
  have hpos := List.length_pos_of_mem hactions
  omega

/-- **A catalog is collected as the union of the pairs, and loaded as the last of them.**  A catalog
that is collected has the services of the pairs, without repetition, each with all actions that are
given for it.  It stays the same if the pairs are put in another order, cut or joined, or if
actions are given again.  A catalog that is loaded from an object with the same members has for each
service the actions of its last list, so it is the same as the one that is collected exactly if
these include the actions of all earlier lists, and in particular if no service is repeated. -/
theorem ofPairs_collects (pairs : Pairs) :
    (ofPairs pairs).services.Perm (pairs.map (·.1)).dedup ∧
    (∀ service, (ofPairs pairs).hasService service = true ↔
      ∃ actions, (service, actions) ∈ pairs) ∧
    (∀ service known, (ofPairs pairs).actionsFor? service = some known ↔
      (∃ actions, (service, actions) ∈ pairs) ∧
        ∀ a, a ∈ known ↔ ∃ actions, (service, actions) ∈ pairs ∧ a ∈ actions) ∧
    (∀ pairs', Relation.EqvGen Rearrangement pairs pairs' → ofPairs pairs' = ofPairs pairs) ∧
    (∃ text, Json.read Json.depthLimit .any text = .ok (.object (membersOf pairs))) ∧
    ∀ text, Json.read Json.depthLimit .any text = .ok (.object (membersOf pairs)) →
      ∃ loaded, ofText text = .ok loaded ∧
        (∀ service known, loaded.actionsFor? service = some known ↔
          ∃ earlier last, listsFor pairs service = earlier ++ [last] ∧
            ∀ a, a ∈ known ↔ a ∈ last) ∧
        (loaded = ofPairs pairs ↔
          ∀ service earlier last, listsFor pairs service = earlier ++ [last] →
            ∀ actions ∈ earlier, ∀ a ∈ actions, a ∈ last) ∧
        ((pairs.map (·.1)).Nodup → loaded = ofPairs pairs) := by
  refine ⟨services_ofPairs_perm pairs, fun _ => hasService_ofPairs_iff,
    fun _ _ => actionsFor?_ofPairs_eq_some_iff, fun _ => ofPairs_eq_of_eqvGen,
    ⟨_, read_text_membersOf pairs⟩, fun text h => ?_⟩
  exact ⟨ofLastPairs pairs, ofText_of_read h, fun _ _ => actionsFor?_ofLastPairs_eq_some_iff,
    ofLastPairs_eq_ofPairs_iff, ofLastPairs_eq_ofPairs_of_nodup⟩

/-- A broker whose actions are given in two lists, and a service without actions. -/
def brokerPairs : Pairs := [("mqtt", ["Publish"]), ("kv", []), ("mqtt", ["Subscribe"])]

/-- To publish is an action of the catalog that is collected, and stays one when the lists are
joined.  In the catalog that is loaded it has been overwritten.  Without the first list both
catalogs are the same. -/
theorem brokerPairs_collected :
    Relation.EqvGen Rearrangement brokerPairs [("kv", []), ("mqtt", ["Subscribe", "Publish"])] ∧
      ofPairs [("kv", []), ("mqtt", ["Subscribe", "Publish"])] = ofPairs brokerPairs ∧
      (∃ text loaded,
        Json.read Json.depthLimit .any text = .ok (.object (membersOf brokerPairs)) ∧
          ofText text = .ok loaded ∧ loaded ≠ ofPairs brokerPairs) ∧
      (brokerPairs.tail.map (·.1)).Nodup ∧
      ∃ text loaded,
        Json.read Json.depthLimit .any text = .ok (.object (membersOf brokerPairs.tail)) ∧
          ofText text = .ok loaded ∧ loaded = ofPairs brokerPairs.tail := by
  have hcut : Rearrangement [("kv", []), ("mqtt", ["Subscribe", "Publish"])]
      [("kv", []), ("mqtt", ["Subscribe"]), ("mqtt", ["Publish"])] :=
    @Rearrangement.cut [("kv", [])] [] "mqtt" _ [["Subscribe"], ["Publish"]] (by decide) (by simp)
  have hpermute : Rearrangement brokerPairs
      [("kv", []), ("mqtt", ["Subscribe"]), ("mqtt", ["Publish"])] := .permute (by decide)
  have hjoined : Relation.EqvGen Rearrangement brokerPairs
      [("kv", []), ("mqtt", ["Subscribe", "Publish"])] :=
    .trans _ _ _ (.rel _ _ hpermute) (.symm _ _ (.rel _ _ hcut))
  have hnodup : (brokerPairs.tail.map (·.1)).Nodup := by decide
  obtain ⟨_, _, _, hrearranged, ⟨text, htext⟩, hloaded⟩ := ofPairs_collects brokerPairs
  obtain ⟨loaded, hread, _, hsame, _⟩ := hloaded text htext
  obtain ⟨_, _, _, _, ⟨text', htext'⟩, hloaded'⟩ := ofPairs_collects brokerPairs.tail
  obtain ⟨loaded', hread', _, _, honce⟩ := hloaded' text' htext'
  refine ⟨hjoined, hrearranged _ hjoined, ⟨text, loaded, htext, hread, ?_⟩, hnodup, text', loaded',
    htext', hread', honce hnodup⟩
  rw [ne_eq, hsame]
  intro h
  exact absurd (h "mqtt" [["Publish"]] ["Subscribe"] rfl ["Publish"] (by decide) "Publish"
    (by decide)) (by decide)

end AccessPolicy.Catalog
