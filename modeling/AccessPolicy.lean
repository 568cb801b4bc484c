import AccessPolicy.Arn
import AccessPolicy.Catalog.Basic
import AccessPolicy.Catalog.Builtin
import AccessPolicy.Catalog.Text
import AccessPolicy.Document.Basic
import AccessPolicy.Document.Error
import AccessPolicy.Document.Validation
import AccessPolicy.Document.Vocabulary
import AccessPolicy.Document.Writing
import AccessPolicy.Engine.ActionPattern
import AccessPolicy.Engine.Builder
import AccessPolicy.Engine.Evaluation
import AccessPolicy.Engine.Request
import AccessPolicy.Glob.Basic
import AccessPolicy.Glob.Language
import AccessPolicy.Json.Basic
import AccessPolicy.Json.Canonical
import AccessPolicy.Json.Double
import AccessPolicy.Json.Numeral
import AccessPolicy.Json.Quoted
import AccessPolicy.Json.Reader
import AccessPolicy.Json.RoundTrip
import AccessPolicy.Json.Shortest
import AccessPolicy.Json.Token
import AccessPolicy.Json.Writer
import AccessPolicy.Proofs.Applicability
import AccessPolicy.Proofs.Except
import AccessPolicy.Proofs.Patterns
import AccessPolicy.Text.Cut
import AccessPolicy.Text.Worded
import AccessPolicy.Proofs.Decisions
import AccessPolicy.Proofs.Conditions
import AccessPolicy.Proofs.Members
import AccessPolicy.Proofs.Reading
import AccessPolicy.Proofs.Grammar
import AccessPolicy.Proofs.Revalidation
import AccessPolicy.Proofs.FirstFailure
import AccessPolicy.Proofs.Unverified
import AccessPolicy.Proofs.StatementOrder
import AccessPolicy.Proofs.ByteOrder
import AccessPolicy.Proofs.Faults
import AccessPolicy.Proofs.CheckOrder
import AccessPolicy.Proofs.NormalForm
import AccessPolicy.Proofs.Outcomes
import AccessPolicy.Proofs.Permissiveness
import AccessPolicy.Proofs.CatalogGrowth
import AccessPolicy.Proofs.LastSettings
import AccessPolicy.Proofs.ReadValues
import AccessPolicy.Proofs.WrittenDocuments
import AccessPolicy.Proofs.TextRoundTrip
import AccessPolicy.Proofs.GreedyWalk
import AccessPolicy.Proofs.PolicyTypes
import AccessPolicy.Proofs.RefusedPatterns
import AccessPolicy.Proofs.WholeActions
import AccessPolicy.Proofs.JoinedStatements
import AccessPolicy.Proofs.ResourceNames
import AccessPolicy.Proofs.LivePatterns
import AccessPolicy.Proofs.SplitStatements
import AccessPolicy.Proofs.NamePatterns
import AccessPolicy.Proofs.LiteralResources
import AccessPolicy.Proofs.Subsumption
import AccessPolicy.Proofs.TokenRows
import AccessPolicy.Proofs.CollectedCatalogs
import AccessPolicy.Proofs.Spellings
import AccessPolicy.Proofs.SpelledTokens
import AccessPolicy.Proofs.WalkBounds
import AccessPolicy.Proofs.AskedShapes
import AccessPolicy.Proofs.LoadedCatalogs
