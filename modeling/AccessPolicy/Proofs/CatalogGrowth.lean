import AccessPolicy.Proofs.Outcomes

/-!
# The catalog gates and does not decide

A catalog is asked for every pattern of every statement that is reached, and how far an engine
reaches depends in turn on what the statements amount to.  Still the catalog has a part only in
whether there is an answer, not in which one it is: what a pattern covers, and so what a statement
applies to, is the same for every catalog.

A pattern that verifies still does after the catalog has grown (`Catalog.Within`), and it verifies
as the same pattern (`Catalog.verify_of_within`).  So whatever was reached is reached again, and an
answer that was given is given again.

Main statement: `Engine.evaluate_catalog`, for the answers on requests and on lists of patterns.
-/

namespace AccessPolicy

/-! ### Patterns -/

namespace Catalog
variable {c c' : Catalog} {action pattern : String} {patterns : List String}

/-- Each service of a catalog is in another with at least the same actions. -/
def Within (c c' : Catalog) : Prop :=
  ∀ service actions, c.actionsFor? service = some actions →
    ∃ actions', c'.actionsFor? service = some actions' ∧ ∀ a ∈ actions, a ∈ actions'

/-- A catalog grows where actions are entered beside those that it has. -/
theorem within_add (c : Catalog) (service : String) (names : List String) :
    c.Within (c.add service names) := by
  intro s actions hactions
  rw [actionsFor?_add, hactions]
  by_cases hs : service = s
  · rw [if_pos hs]
    exact ⟨_, rfl, fun a ha => Std.ExtTreeSet.mem_insertMany_list.2 (Or.inl ha)⟩
  · rw [if_neg hs]
    exact ⟨actions, rfl, fun _ ha => ha⟩

/-- What a pattern verifies as is the same in a larger catalog. -/
theorem verify_of_within (h : c.Within c') {verified : ActionPattern}
    (hverify : c.verify pattern = .ok verified) : c'.verify pattern = .ok verified := by
  apply verify_eq_ok_iff.2
  rcases verify_eq_ok_iff.1 hverify with hstar |
    ⟨service, name, actions, known, hpattern, hservice, hwild, hname, hactions, hknown, haccepts,
      hverified⟩
  · exact Or.inl hstar
  · obtain ⟨actions', hactions', hsubset⟩ := h service actions hactions
    exact Or.inr ⟨service, name, actions', known, hpattern, hservice, hwild, hname, hactions',
      hsubset known hknown, haccepts, hverified⟩

theorem Verifies.of_within (h : c.Within c') : c.Verifies pattern → c'.Verifies pattern := by
  rintro ⟨verified, hverify⟩
  exact ⟨verified, verify_of_within h hverify⟩

/-- Two catalogs that both give an answer on a list of patterns give the same one. -/
theorem eq_of_actionMatches {answer answer' : Bool}
    (h : c.actionMatches action patterns = .ok answer)
    (h' : c'.actionMatches action patterns = .ok answer') : answer' = answer := by
  rw [Bool.eq_iff_iff, (actionMatches_eq_ok_iff.1 h').2, (actionMatches_eq_ok_iff.1 h).2]

theorem actionMatches_of_within (h : c.Within c') {answer : Bool}
    (hanswer : c.actionMatches action patterns = .ok answer) :
    c'.actionMatches action patterns = .ok answer := by
  obtain ⟨hverified, hiff⟩ := actionMatches_eq_ok_iff.1 hanswer
  exact actionMatches_eq_ok_iff.2 ⟨fun p hp => (hverified p hp).of_within h, hiff⟩

end Catalog

/-! ### Requests -/

namespace Engine
variable {e : Engine} {request : Request} {c c' : Catalog} {statements : List Statement}

/-- An engine that differs in its catalog only. -/
def withCatalog (e : Engine) (catalog : Catalog) : Engine := { e with catalog }

theorem Verified.of_within (h : c.Within c') {s : Statement}
    (hs : (e.withCatalog c).Verified s) : (e.withCatalog c').Verified s :=
  fun p hp => (hs p hp).of_within h

/-- A denial that is reached is reached with a larger catalog. -/
theorem DeniesBefore.of_within (h : c.Within c') {i : Nat}
    (hdenies : (e.withCatalog c).DeniesBefore request statements i) :
    (e.withCatalog c').DeniesBefore request statements i := by
  obtain ⟨j, s, hj, hget, hs, hverified⟩ := hdenies
  exact ⟨j, s, hj, hget, hs, fun s' hs' => (hverified s' hs').of_within h⟩

theorem Decides.of_within (h : c.Within c') (hdecides : (e.withCatalog c).Decides request) :
    (e.withCatalog c').Decides request := by
  rcases hdecides with hverified | hdenies
  · exact Or.inl fun s hs => (hverified s hs).of_within h
  · exact Or.inr (hdenies.of_within h)

/-- The catalog has no part in what the statements amount to. -/
@[simp] theorem decision_withCatalog (e : Engine) (request : Request) (c : Catalog) :
    (e.withCatalog c).decision request = e.decision request := rfl

/-- **The catalog gates but never decides.**  Two catalogs under which an engine answers a request
lead to the same answer, and an answer under one catalog is the answer under every larger one.  The
same is true of the answers on an action and a list of patterns. -/
theorem evaluate_catalog (e : Engine) (c c' : Catalog) :
    (∀ request answer answer', (e.withCatalog c).evaluate request = .ok answer →
      (e.withCatalog c').evaluate request = .ok answer' → answer' = answer) ∧
    (c.Within c' → ∀ request answer, (e.withCatalog c).evaluate request = .ok answer →
      (e.withCatalog c').evaluate request = .ok answer) ∧
    (∀ action patterns answer answer',
      (e.withCatalog c).actionMatches action patterns = .ok answer →
      (e.withCatalog c').actionMatches action patterns = .ok answer' → answer' = answer) ∧
    (c.Within c' → ∀ action patterns answer,
      (e.withCatalog c).actionMatches action patterns = .ok answer →
      (e.withCatalog c').actionMatches action patterns = .ok answer) := by
  refine ⟨?_, ?_, ?_, ?_⟩
  · intro request answer answer' hanswer hanswer'
    obtain ⟨_, rfl⟩ := evaluate_eq_ok_iff.1 hanswer
    obtain ⟨_, rfl⟩ := evaluate_eq_ok_iff.1 hanswer'
    rw [decision_withCatalog, decision_withCatalog]
  · intro h request answer hanswer
    obtain ⟨hdecides, rfl⟩ := evaluate_eq_ok_iff.1 hanswer
    exact evaluate_eq_ok_iff.2 ⟨hdecides.of_within h, rfl⟩
  · intro action patterns answer answer' hanswer hanswer'
    exact Catalog.eq_of_actionMatches hanswer hanswer'
  · intro h action patterns answer hanswer
    exact Catalog.actionMatches_of_within h hanswer

/-- A catalog in which buckets can also be listed. -/
def listingCatalog : Catalog := sharedBucket.catalog.add "s3" ["ListBucket"]

/-- That buckets can be listed as well changes nothing about writing. -/
theorem listingCatalog_denies_writeNotes :
    sharedBucket.catalog.Within listingCatalog ∧
      (sharedBucket.withCatalog sharedBucket.catalog).evaluate writeNotes = .ok .denied ∧
      (sharedBucket.withCatalog listingCatalog).evaluate writeNotes = .ok .denied ∧
      (sharedBucket.withCatalog sharedBucket.catalog).actionMatches readNotes.action ["s3:Get*"] =
        .ok true ∧
      (sharedBucket.withCatalog listingCatalog).actionMatches readNotes.action ["s3:Get*"] =
        .ok true ∧
      (∀ answer, (sharedBucket.withCatalog listingCatalog).evaluate writeNotes = .ok answer →
        answer = .denied) ∧
      ∀ answer, (sharedBucket.withCatalog listingCatalog).actionMatches readNotes.action
        ["s3:Get*"] = .ok answer → answer = true := by
  have hwithin : sharedBucket.catalog.Within listingCatalog := Catalog.within_add _ _ _
  have hwrite : (sharedBucket.withCatalog sharedBucket.catalog).evaluate writeNotes =
      .ok .denied :=
    evaluate_eq_ok_iff.2
      ⟨Or.inl sharedBucket_verified, (decision_eq_denied sharedBucket_denies_writeNotes).symm⟩
  have hread : (sharedBucket.withCatalog sharedBucket.catalog).actionMatches readNotes.action
      ["s3:Get*"] = .ok true := by
    apply Catalog.actionMatches_eq_ok_iff.2
    constructor
    · exact List.forall_mem_singleton.2 sharedBucket_verifies_get
    · exact iff_of_true rfl ⟨_, List.mem_cons_self, readNotes_covered⟩
  obtain ⟨hsame, hgrown, hsame', hgrown'⟩ :=
    evaluate_catalog sharedBucket sharedBucket.catalog listingCatalog
  exact ⟨hwithin, hwrite, hgrown hwithin _ _ hwrite, hread, hgrown' hwithin _ _ _ hread,
    fun answer => hsame _ _ answer hwrite, fun answer => hsame' _ _ _ answer hread⟩

end Engine

end AccessPolicy
