import Std.Data.ExtTreeMap
import Std.Data.ExtTreeSet

/-!
# Catalogs of actions

A catalog says which services there are and which actions each of them has.  Names are compared
literally.  Services and the actions of a service have no order of their own and are listed in
increasing order, by code points; two catalogs are equal if they have the same content
(`Catalog.ext_actionsFor?`).

There are two ways to enter a service that is there already: `add` joins the actions (`ofPairs`),
`put` replaces them.
-/

namespace AccessPolicy

/-- A set of names. -/
abbrev Names := Std.ExtTreeSet String

/-- The actions of each service. -/
structure Catalog where
  entries : Std.ExtTreeMap String Names
  deriving DecidableEq

namespace Catalog

/-- The catalog without services. -/
def empty : Catalog := ⟨∅⟩

/-- The actions of a service, if there is such a service. -/
def actionsFor? (c : Catalog) (service : String) : Option Names := c.entries[service]?

/-- Whether there is such a service. -/
def hasService (c : Catalog) (service : String) : Bool := c.entries.contains service

/-- The services, in order. -/
def services (c : Catalog) : List String := c.entries.keys

/-- How many services there are. -/
def size (c : Catalog) : Nat := c.entries.size

/-- Whether there are no services. -/
def isEmpty (c : Catalog) : Bool := c.entries.isEmpty

/-- Enters actions of a service beside those that it has. -/
def add (c : Catalog) (service : String) (actions : List String) : Catalog :=
  ⟨c.entries.alter service fun known => some ((known.getD ∅).insertMany actions)⟩

/-- Enters actions of a service instead of those that it has. -/
def put (c : Catalog) (service : String) (actions : List String) : Catalog :=
  ⟨c.entries.insert service (Std.ExtTreeSet.ofList actions)⟩

/-- The catalog of a list of services with actions, where a repeated service has the actions of all
its entries. -/
def ofPairs (pairs : List (String × List String)) : Catalog :=
  pairs.foldl (fun c (service, actions) => c.add service actions) empty

/-- The catalog of a list of services with actions, where a repeated service has the actions of its
last entry. -/
def ofLastPairs (pairs : List (String × List String)) : Catalog :=
  pairs.foldl (fun c (service, actions) => c.put service actions) empty

/-! ### Content -/

/-- Catalogs with the same content are equal. -/
theorem ext_actionsFor? {c d : Catalog} (h : ∀ s, c.actionsFor? s = d.actionsFor? s) : c = d := by
  obtain ⟨c⟩ := c
  obtain ⟨d⟩ := d
  exact congrArg Catalog.mk (Std.ExtTreeMap.ext_getElem? h)

@[simp] theorem actionsFor?_empty (service : String) : empty.actionsFor? service = none := by
  simp [actionsFor?, empty]

@[simp] theorem actionsFor?_add (c : Catalog) (service : String) (actions : List String)
    (s : String) :
    (c.add service actions).actionsFor? s =
      if service = s then some (((c.actionsFor? s).getD ∅).insertMany actions)
      else c.actionsFor? s := by
  simp only [actionsFor?, add, Std.ExtTreeMap.getElem?_alter, Std.LawfulEqCmp.compare_eq_iff_eq]
  split
  · rename_i h
    subst h
    rfl
  · rfl

@[simp] theorem actionsFor?_put (c : Catalog) (service : String) (actions : List String)
    (s : String) :
    (c.put service actions).actionsFor? s =
      if service = s then some (Std.ExtTreeSet.ofList actions) else c.actionsFor? s := by
  simp only [actionsFor?, put, Std.ExtTreeMap.getElem?_insert, Std.LawfulEqCmp.compare_eq_iff_eq]

@[simp] theorem hasService_eq_isSome (c : Catalog) (service : String) :
    c.hasService service = (c.actionsFor? service).isSome := by
  simp [hasService, actionsFor?, Std.ExtTreeMap.isSome_getElem?_eq_contains]

end Catalog

end AccessPolicy
