import AccessPolicy.Proofs.Permissiveness

/-!
# One statement for each value

A positive action or resource clause holds if one of its values matches.  So a statement with such a
clause can be replaced by several, one for each value, which are the same otherwise: whatever the
effect, some of these apply to a request exactly if the statement did.  A statement may be split by
its actions, by its resources or by both (`Statement.Splits`), and the statements of a policy one
after the other in any order (`Splitting`).

A split neither loses nor brings in statements that apply, and what it makes is verified if what it
was made from is (`Engine.SameEffects`).  This is so for the two clauses on their own
(`Engine.sameEffects_eachAction`, `Engine.sameEffects_eachResource`); by both clauses a statement
is split in two steps.

Main statement: `Engine.evaluate_split`.
-/

namespace AccessPolicy

/-! ### Splits -/

/-- The values of a list, each as a list of its own. -/
def ValueList.singles (list : ValueList) : List ValueList :=
  list.values.attach.map fun v => .singleton v.1 (list.ne_empty v.1 v.2)

namespace Statement

/-- The statement with one action at a time. -/
def eachAction (s : Statement) (actions : ValueList) : List Statement :=
  actions.singles.map fun one => { s with action := .is one }

/-- The statement with one resource at a time. -/
def eachResource (s : Statement) (resources : ValueList) : List Statement :=
  resources.singles.map fun one => { s with resource := some (.is one) }

/-- The statements into which one can be split: by its actions, by its resources, or by both. -/
inductive Splits (s : Statement) : List Statement → Prop
  | actions {actions : ValueList} (haction : s.action = .is actions) :
      Splits s (s.eachAction actions)
  | resources {resources : ValueList} (hresource : s.resource = some (.is resources)) :
      Splits s (s.eachResource resources)
  | both {actions resources : ValueList} (haction : s.action = .is actions)
      (hresource : s.resource = some (.is resources)) :
      Splits s ((s.eachAction actions).flatMap fun part => part.eachResource resources)

end Statement

/-- One statement of a policy is split. -/
inductive Splitting : List Statement → List Statement → Prop
  | split (before after : List Statement) {s : Statement} {parts : List Statement}
      (h : s.Splits parts) : Splitting (before ++ s :: after) (before ++ parts ++ after)

/-! ### Clauses -/

namespace ValueList
variable {list one : ValueList}

@[simp] theorem mem_singles_iff : one ∈ list.singles ↔ ∃ v ∈ list.values, one.values = [v] := by
  unfold singles
  rw [List.mem_map]
  constructor
  · rintro ⟨v, _, rfl⟩
    exact ⟨v.1, v.2, rfl⟩
  · rintro ⟨v, hv, hone⟩
    refine ⟨⟨v, hv⟩, List.mem_attach _ _, ?_⟩
    obtain ⟨values, _, _⟩ := one
    subst hone
    rfl

/-- The values of the lists of one value are those of the list. -/
theorem exists_mem_singles_iff {P : String → Prop} :
    (∃ one ∈ list.singles, ∃ v ∈ one.values, P v) ↔ ∃ v ∈ list.values, P v := by
  constructor
  · rintro ⟨one, hone, v, hv, h⟩
    obtain ⟨v', hv', hvalues⟩ := mem_singles_iff.1 hone
    rw [hvalues, List.mem_singleton] at hv
    subst hv
    exact ⟨v, hv', h⟩
  · rintro ⟨v, hv, h⟩
    have hone : v ≠ "" := list.ne_empty v hv
    exact ⟨.singleton v hone, mem_singles_iff.2 ⟨v, hv, rfl⟩, v, List.mem_singleton_self v, h⟩

end ValueList

/-- A positive action clause holds if it does for one of its values. -/
theorem actionHolds_is_iff {action : String} {list : ValueList} :
    ActionHolds action (.is list) ↔ ∃ one ∈ list.singles, ActionHolds action (.is one) :=
  ValueList.exists_mem_singles_iff.symm

/-- A positive resource clause holds if it does for one of its values. -/
theorem resourceHolds_is_iff {matcher : ResourceMatcher} {resource : String} {list : ValueList} :
    ResourceHolds matcher resource (some (.is list)) ↔
      ∃ one ∈ list.singles, ResourceHolds matcher resource (some (.is one)) := by
  simp only [ResourceHolds, Clause.Holds]
  rw [← ValueList.exists_mem_singles_iff]
  constructor
  · rintro ⟨hresource, one, hone, h⟩
    exact ⟨one, hone, hresource, h⟩
  · rintro ⟨one, hone, hresource, h⟩
    exact ⟨hresource, one, hone, h⟩

/-! ### Policies -/

namespace Engine
variable {e : Engine} {request : Request} {s : Statement}
  {statements statements' statements'' : List Statement}

/-- To a request the second statements apply with the effects with which the first do, and they are
verified if the first are. -/
structure SameEffects (e : Engine) (request : Request) (statements statements' : List Statement) :
    Prop where
  verified : (∀ s ∈ statements, e.Verified s) → ∀ s ∈ statements', e.Verified s
  applies : ∀ effect,
    e.SomeApplies request effect statements' ↔ e.SomeApplies request effect statements

theorem SameEffects.refl : e.SameEffects request statements statements := ⟨id, fun _ => Iff.rfl⟩

theorem SameEffects.trans (h : e.SameEffects request statements statements')
    (h' : e.SameEffects request statements' statements'') :
    e.SameEffects request statements statements'' where
  verified hverified := h'.verified (h.verified hverified)
  applies effect := (h'.applies effect).trans (h.applies effect)

theorem SameEffects.append {rest rest' : List Statement}
    (h : e.SameEffects request statements statements')
    (hrest : e.SameEffects request rest rest') :
    e.SameEffects request (statements ++ rest) (statements' ++ rest') := by
  constructor
  · simp only [List.forall_mem_append]
    exact And.imp h.verified hrest.verified
  · intro effect
    rw [someApplies_append, someApplies_append, h.applies, hrest.applies]

/-- Each statement is replaced on its own. -/
theorem SameEffects.flatMap {f : Statement → List Statement}
    (h : ∀ s ∈ statements, e.SameEffects request [s] (f s)) :
    e.SameEffects request statements (statements.flatMap f) := by
  induction statements with
  | nil => exact .refl
  | cons s rest ih =>
    obtain ⟨hs, hrest⟩ := List.forall_mem_cons.1 h
    rw [List.flatMap_cons]
    exact hs.append (ih hrest)

/-- A statement is replaced by one for each value of a list. -/
theorem sameEffects_map {list : ValueList} {part : ValueList → Statement}
    (hverified : e.Verified s → ∀ one ∈ list.singles, e.Verified (part one))
    (heffect : ∀ one, (part one).effect = s.effect)
    (happlies : e.Applies request s ↔ ∃ one ∈ list.singles, e.Applies request (part one)) :
    e.SameEffects request [s] (list.singles.map part) := by
  constructor
  · intro hs
    rw [List.forall_mem_map]
    exact hverified (List.forall_mem_singleton.1 hs)
  · intro effect
    rw [someApplies_singleton, happlies]
    constructor
    · rintro ⟨_, hpart, hsame, hpartApplies⟩
      obtain ⟨one, hone, rfl⟩ := List.mem_map.1 hpart
      rw [heffect] at hsame
      exact ⟨hsame, one, hone, hpartApplies⟩
    · rintro ⟨hsame, one, hone, hpartApplies⟩
      have hpart : part one ∈ list.singles.map part := List.mem_map_of_mem hone
      exact ⟨part one, hpart, (heffect one).trans hsame, hpartApplies⟩

theorem sameEffects_eachAction {actions : ValueList} (haction : s.action = .is actions) :
    e.SameEffects request [s] (s.eachAction actions) := by
  refine sameEffects_map ?_ (fun _ => rfl) ?_
  · intro hs one hone
    obtain ⟨v, hv, hvalues⟩ := ValueList.mem_singles_iff.1 hone
    rw [Verified, haction] at hs
    -- the one value is among those that verify
    have hverifies : ∀ p ∈ one.values, e.catalog.Verifies p := by
      rw [hvalues]
      exact List.forall_mem_singleton.2 (hs v hv)
    exact hverifies
  · have hholds : ActionHolds request.action s.action ↔
        ∃ one ∈ actions.singles, ActionHolds request.action (.is one) := by
      rw [haction]
      exact actionHolds_is_iff
    rw [Applies, ClausesHold, hholds]
    constructor
    · rintro ⟨⟨⟨one, hone, hmatches⟩, hresource⟩, hcondition⟩
      exact ⟨one, hone, ⟨hmatches, hresource⟩, hcondition⟩
    · rintro ⟨one, hone, ⟨hmatches, hresource⟩, hcondition⟩
      exact ⟨⟨⟨one, hone, hmatches⟩, hresource⟩, hcondition⟩

theorem sameEffects_eachResource {resources : ValueList}
    (hresource : s.resource = some (.is resources)) :
    e.SameEffects request [s] (s.eachResource resources) := by
  -- the action clause stays, so there is nothing new to verify
  refine sameEffects_map (fun hs _ _ => hs) (fun _ => rfl) ?_
  have hholds : ResourceHolds e.matcher request.resource s.resource ↔
      ∃ one ∈ resources.singles, ResourceHolds e.matcher request.resource (some (.is one)) := by
    rw [hresource]
    exact resourceHolds_is_iff
  rw [Applies, ClausesHold, hholds]
  constructor
  · rintro ⟨⟨haction, one, hone, hmatches⟩, hcondition⟩
    exact ⟨one, hone, ⟨haction, hmatches⟩, hcondition⟩
  · rintro ⟨one, hone, ⟨haction, hmatches⟩, hcondition⟩
    exact ⟨⟨haction, one, hone, hmatches⟩, hcondition⟩

end Engine

/-- A statement and what it is split into have the same effects. -/
theorem Statement.Splits.sameEffects {s : Statement} {parts : List Statement} (h : s.Splits parts)
    (e : Engine) (request : Request) : e.SameEffects request [s] parts := by
  cases h with
  | actions haction => exact Engine.sameEffects_eachAction haction
  | resources hresource => exact Engine.sameEffects_eachResource hresource
  | both haction hresource =>
    refine (Engine.sameEffects_eachAction haction).trans (.flatMap fun part hpart => ?_)
    obtain ⟨one, _, rfl⟩ := List.mem_map.1 hpart
    -- the resource clause is still there
    exact Engine.sameEffects_eachResource hresource

/-- What stands around a split statement plays no part. -/
theorem Splitting.sameEffects {statements statements' : List Statement}
    (h : Splitting statements statements') (e : Engine) (request : Request) :
    e.SameEffects request statements statements' := by
  cases h with
  | @split before after s parts h =>
    have hparts : e.SameEffects request (before ++ [s] ++ after) (before ++ parts ++ after) :=
      (Engine.SameEffects.refl.append (h.sameEffects e request)).append .refl
    rwa [List.append_assoc, List.singleton_append] at hparts

namespace Engine
variable {e : Engine} {request : Request} {statements statements' : List Statement}

/-- Finitely many splits change no effects either. -/
theorem sameEffects_of_splits (h : Relation.ReflTransGen Splitting statements statements') :
    e.SameEffects request statements statements' := by
  induction h with
  | refl => exact .refl
  | tail _ hsplit ih => exact ih.trans (hsplit.sameEffects e request)

/-- **The values of a positive clause are a union.**  If all action patterns verify, statements may
be split by their actions and their resources, in any number of steps, and every request is answered
as before. -/
theorem evaluate_split (e : Engine) (hverified : ∀ s ∈ e.document.statements, e.Verified s)
    (statements : List Statement)
    (hsplits : Relation.ReflTransGen Splitting e.document.statements statements)
    (request : Request) :
    (e.withStatements statements).evaluate request = e.evaluate request := by
  have hsame : e.SameEffects request e.document.statements statements :=
    sameEffects_of_splits hsplits
  exact evaluate_withStatements_of_applies hverified (hsame.verified hverified) hsame.applies

/-- The permission of the shared bucket is split by its actions and its resource, and then the
denial stands after two statements.  It still denies to write the notes, and reading them is still
allowed. -/
theorem evaluate_sharedBucket_split :
    (∀ s ∈ sharedBucket.document.statements, sharedBucket.Verified s) ∧
      ∃ get put deny, sharedBucket.document.statements[1]? = some deny ∧
        get.action = .is (.singleton "s3:Get*" (by decide)) ∧
        put.action = .is (.singleton "s3:PutObject" (by decide)) ∧
        Relation.ReflTransGen Splitting sharedBucket.document.statements [get, put, deny] ∧
        (sharedBucket.withStatements [get, put, deny]).evaluate writeNotes =
          sharedBucket.evaluate writeNotes ∧
        (sharedBucket.withStatements [get, put, deny]).evaluate readNotes = .ok .allowed := by
  have hsplit : Splitting sharedBucket.document.statements _ :=
    .split [] [_] (.both rfl rfl)
  have hsplits := Relation.ReflTransGen.single hsplit
  exact ⟨sharedBucket_verified, _, _, _, rfl, rfl, rfl, hsplits,
    evaluate_split sharedBucket sharedBucket_verified _ hsplits writeNotes,
    (evaluate_split sharedBucket sharedBucket_verified _ hsplits readNotes).trans
      sharedBucket_allows_readNotes⟩

end Engine

end AccessPolicy
