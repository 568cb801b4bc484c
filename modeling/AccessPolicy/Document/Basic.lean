import AccessPolicy.Document.Vocabulary
import AccessPolicy.Json.Basic

/-!
# Policy documents

A policy document is a version and a list of statements.  A statement has an effect and says which
requests it applies to, by clauses on their action, their resource and their principal and by a
condition.

The lists of values in a clause are never empty and hold no empty text; both are part of their type.
Conditions are kept as they were written.
-/

namespace AccessPolicy

/-! ### Clauses -/

/-- An element in its positive or its negative form. -/
inductive Clause (α : Type)
  | is (value : α)
  | isNot (value : α)
  deriving DecidableEq

namespace Clause
variable {α β ε : Type}

/-- What stands in the element. -/
def value : Clause α → α
  | .is a | .isNot a => a

/-- Whether the element is the negative one. -/
def negated : Clause α → Bool
  | .is _ => false
  | .isNot _ => true

/-- The element of a pair that the clause is. -/
def element (pair : ElementPair) : Clause α → Element
  | .is _ => pair.positive
  | .isNot _ => pair.negative

/-- The same form around another value, if there is one. -/
def mapExcept (f : α → Except ε β) : Clause α → Except ε (Clause β)
  | .is a => (f a).map .is
  | .isNot a => (f a).map .isNot

@[simp] theorem value_is (a : α) : (is a).value = a := rfl

@[simp] theorem value_isNot (a : α) : (isNot a).value = a := rfl

@[simp] theorem mapExcept_is (f : α → Except ε β) (a : α) :
    (is a).mapExcept f = (f a).map is := rfl

@[simp] theorem mapExcept_isNot (f : α → Except ε β) (a : α) :
    (isNot a).mapExcept f = (f a).map isNot := rfl

end Clause

/-! ### Lists of values -/

/-- The values of an action or resource element or of one kind of principals. -/
structure ValueList where
  values : List String
  values_ne_nil : values ≠ []
  ne_empty : ∀ v ∈ values, v ≠ ""
  deriving DecidableEq

namespace ValueList

/-- One value alone. -/
def singleton (v : String) (h : v ≠ "") : ValueList :=
  ⟨[v], List.cons_ne_nil _ _, List.forall_mem_singleton.2 h⟩

/-- A list of values that has one and none that is empty. -/
def ofList? (values : List String) : Option ValueList :=
  if h : values ≠ [] ∧ ∀ v ∈ values, v ≠ "" then some ⟨values, h.1, h.2⟩ else none

@[simp] theorem ofList?_eq_some_iff {values : List String} {list : ValueList} :
    ofList? values = some list ↔ list.values = values := by
  unfold ofList?
  constructor
  · intro h
    split at h
    · exact congrArg ValueList.values (Option.some.inj h).symm
    · simp at h
  · rintro rfl
    rw [dif_pos ⟨list.values_ne_nil, list.ne_empty⟩]

end ValueList

/-! ### Principals -/

/-- Identifiers of principals by kind, with at least one kind. -/
structure PrincipalIds where
  get? : PrincipalKind → Option ValueList
  nonempty : ∃ kind, (get? kind).isSome

namespace PrincipalIds

@[ext] theorem ext {ids ids' : PrincipalIds} (h : ∀ kind, ids.get? kind = ids'.get? kind) :
    ids = ids' := by
  obtain ⟨get?, _⟩ := ids
  obtain ⟨get?', _⟩ := ids'
  obtain rfl : get? = get?' := funext h
  rfl

/-- Identifiers are the same if they are so for each kind. -/
instance : DecidableEq PrincipalIds := fun ids ids' =>
  decidable_of_iff (∀ kind ∈ (Worded.all : List PrincipalKind), ids.get? kind = ids'.get? kind)
    ⟨fun h => ext fun kind => h kind (Worded.mem_all kind), fun h _ _ => h ▸ rfl⟩

/-- The kinds that there are, in order, with their identifiers. -/
def entries (ids : PrincipalIds) : List (PrincipalKind × ValueList) :=
  Worded.all.filterMap fun kind => (ids.get? kind).map (kind, ·)

end PrincipalIds

/-- Who a statement is about. -/
inductive Principal
  | anyone
  | named (ids : PrincipalIds)
  deriving DecidableEq

/-! ### Documents -/

/-- One statement of a policy.  A missing resource clause does not restrict the resource. -/
structure Statement where
  effect : Effect
  action : Clause ValueList
  resource : Option (Clause ValueList)
  principal : Option (Clause Principal)
  condition : Option Json.Members
  deriving DecidableEq

/-- A policy document. -/
structure Document where
  version : Version
  statements : List Statement
  deriving DecidableEq

end AccessPolicy
