import AccessPolicy.Text.Cut

/-!
# Resource names

A resource name has six fields with colons between them: the word `arn`, a partition, a service, a
region, an account and a resource part.  The resource part is everything after the fifth colon, so
it may hold colons, slashes and line breaks itself.  Region and account may be empty and nothing is
asked of their content.

`Arn.parse` cuts a text at its first five colons and then checks partition, service and resource
part, in this order; `Arn.text` writes a name down again.
-/

namespace AccessPolicy

/-- A resource name by its fields. -/
structure Arn where
  partition : String
  service : String
  region : String
  account : String
  resource : String
  deriving DecidableEq

/-- What is wrong with a text that is no resource name. -/
inductive ArnError
  /-- There are fewer than six fields, or the first is not `arn`. -/
  | malformed (text : String)
  /-- The partition is none of `Arn.partitions`. -/
  | partition (name : String)
  /-- The service field is empty. -/
  | emptyService
  /-- The resource part is empty. -/
  | emptyResource
  deriving DecidableEq

/-- The wording of each cause. -/
def ArnError.message : ArnError → String
  | .malformed text => "Invalid ARN: \"" ++ text ++ "\""
  | .partition name =>
    "Invalid ARN partition \"" ++ name ++ "\". Supported values *, aws, aws-cn, aws-us-gov."
  | .emptyService => "Invalid ARN service: \"\""
  | .emptyResource => "Empty ARN resource part"

namespace Arn

/-- The partitions there are; `*` stands for any of them. -/
def partitions : List String := ["*", "aws", "aws-cn", "aws-us-gov"]

/-- The fields of a text that has all six and begins with `arn`, whatever they hold. -/
def ofFields? (text : String) : Option Arn := do
  let (scheme, rest) ← Text.cut? ':' text
  let (partition, rest) ← Text.cut? ':' rest
  let (service, rest) ← Text.cut? ':' rest
  let (region, rest) ← Text.cut? ':' rest
  let (account, resource) ← Text.cut? ':' rest
  if scheme = "arn" then some { partition, service, region, account, resource } else none

/-- Reads a resource name.  A text with several faults is refused for the first of them in the order
of the constructors of `ArnError`. -/
def parse (text : String) : Except ArnError Arn :=
  match ofFields? text with
  | none => .error (.malformed text)
  | some arn =>
    if arn.partition ∉ partitions then .error (.partition arn.partition)
    else if arn.service = "" then .error .emptyService
    else if arn.resource = "" then .error .emptyResource
    else .ok arn

/-- Writes the six fields with colons between them. -/
def text (arn : Arn) : String :=
  "arn:" ++ arn.partition ++ ":" ++ arn.service ++ ":" ++ arn.region ++ ":" ++ arn.account ++ ":" ++
    arn.resource

end Arn

end AccessPolicy
