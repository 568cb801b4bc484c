import AccessPolicy.Catalog.Builtin
import AccessPolicy.Document.Validation
import AccessPolicy.Engine.Evaluation
import AccessPolicy.Json.Reader

/-!
# Building engines

An engine is built from a policy, which is a text or a value, and from settings.  Settings may be
made in any order; of one sort the last counts.  Without settings the policy is one for an
identity, patterns are verified against the built-in catalog, resources are matched as globs and
requests are denied by default.

The policy is read and validated when the engine is built, not before.

In settings a kind of policy is given by its word or by an object with the word as its only name and
null as its value (`PolicyType.ofJson`).
-/

namespace AccessPolicy

/-- Where a policy is taken from. -/
inductive PolicySource
  | text (json : String)
  | value (v : Json)

/-- What can be set. -/
inductive Setting
  | policyType (t : PolicyType)
  | catalog (catalog : Catalog)
  | matcher (matcher : ResourceMatcher)
  | default (decision : Decision)

/-- The kind of policy that a value gives. -/
def PolicyType.ofJson : Json → Except Json.Fault PolicyType
  | .string s | .object [(s, .null)] =>
    match Worded.ofText? s with
    | some t => .ok t
    | none => .error .mistyped
  | _ => .error .mistyped

/-- Why there is no engine for a policy. -/
inductive BuildError
  /-- The text is not JSON. -/
  | unreadable (fault : Json.Fault)
  /-- The value is no policy document. -/
  | invalid (cause : DocumentError)
  deriving DecidableEq

/-- A policy with the settings made so far. -/
structure Builder where
  source : PolicySource
  policyType : PolicyType
  catalog : Catalog
  matcher : ResourceMatcher
  default : Decision

namespace Builder

/-- A policy without settings. -/
def of (source : PolicySource) : Builder :=
  { source, policyType := .identity, catalog := .builtin, matcher := .glob, default := .denied }

/-- Makes a setting. -/
def apply (b : Builder) : Setting → Builder
  | .policyType t => { b with policyType := t }
  | .catalog catalog => { b with catalog }
  | .matcher matcher => { b with matcher }
  | .default decision => { b with default := decision }

/-- Makes settings one after the other. -/
def applyAll (b : Builder) (settings : List Setting) : Builder := settings.foldl apply b

/-- The value of a source. -/
def read : PolicySource → Except Json.Fault Json
  | .text json => Json.ofText json
  | .value v => .ok v

/-- Builds the engine. -/
def build (b : Builder) : Except BuildError Engine :=
  match read b.source with
  | .error fault => .error (.unreadable fault)
  | .ok v =>
    match Document.validate v b.policyType with
    | .error cause => .error (.invalid cause)
    | .ok document =>
      .ok { document, policyType := b.policyType, catalog := b.catalog, matcher := b.matcher,
            default := b.default }

end Builder

namespace Engine

/-- The engine for a value that is a policy document of type `t`, without further settings. -/
def ofJson (v : Json) (t : PolicyType) : Except BuildError Engine :=
  ((Builder.of (.value v)).apply (.policyType t)).build

/-- The engine for a text that is a policy document of type `t`, without further settings. -/
def ofText (json : String) (t : PolicyType) : Except BuildError Engine :=
  ((Builder.of (.text json)).apply (.policyType t)).build

end Engine

end AccessPolicy
