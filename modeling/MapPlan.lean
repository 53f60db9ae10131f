import MapPlan.CommandLine.Arguments
import MapPlan.CommandLine.Verdict
import MapPlan.Digest.Blake3
import MapPlan.Digest.Fingerprint
import MapPlan.Expr.Boundary
import MapPlan.Expr.Lambda
import MapPlan.Expr.Literal
import MapPlan.Expr.Parameter
import MapPlan.Expr.Rename
import MapPlan.Expr.Token
import MapPlan.Expr.Word
import MapPlan.Json.Basic
import MapPlan.Json.Reader
import MapPlan.KeyedMap
import MapPlan.Main
import MapPlan.Manifest.Basic
import MapPlan.Manifest.Compile
import MapPlan.Manifest.Document
import MapPlan.Manifest.Mappings
import MapPlan.Manifest.Reader
import MapPlan.Manifest.Shapes
import MapPlan.Mapping.Config
import MapPlan.Mapping.Diagnostic
import MapPlan.Mapping.Entry
import MapPlan.Mapping.Key
import MapPlan.Mapping.Registry
import MapPlan.Plan.Basic
import MapPlan.Plan.Cache
import MapPlan.Plan.Options
import MapPlan.Plan.Pass
import MapPlan.Plan.Resolver
import MapPlan.Plan.Settings
import MapPlan.Proofs.CommandLine.Verdict
import MapPlan.Proofs.Digest.Framing
import MapPlan.Proofs.Expr.Agreement
import MapPlan.Proofs.Expr.Edit
import MapPlan.Proofs.Expr.Format
import MapPlan.Proofs.Expr.GenericHead
import MapPlan.Proofs.Expr.Inference
import MapPlan.Proofs.Expr.LambdaHead
import MapPlan.Proofs.Expr.Lexeme
import MapPlan.Proofs.Expr.Literal
import MapPlan.Proofs.Expr.LiteralBytes
import MapPlan.Proofs.Expr.LiteralDelimit
import MapPlan.Proofs.Expr.LiteralGrammar
import MapPlan.Proofs.Expr.LiteralReader
import MapPlan.Proofs.Expr.LiteralSafety
import MapPlan.Proofs.Expr.Markup
import MapPlan.Proofs.Expr.MarkupEdit
import MapPlan.Proofs.Expr.Member
import MapPlan.Proofs.Expr.Munch
import MapPlan.Proofs.Expr.Occurrence
import MapPlan.Proofs.Expr.Retokenize
import MapPlan.Proofs.Expr.Role
import MapPlan.Proofs.Expr.Scan
import MapPlan.Proofs.Expr.Template
import MapPlan.Proofs.Expr.Tiling
import MapPlan.Proofs.Expr.Token
import MapPlan.Proofs.Expr.TokenRole
import MapPlan.Proofs.Expr.WordBoundary
import MapPlan.Proofs.Json.RoundTrip
import MapPlan.Proofs.KeyedMap
import MapPlan.Proofs.Manifest.FirstDeclaration
import MapPlan.Proofs.Manifest.Registration
import MapPlan.Proofs.Manifest.ShapeTable
import MapPlan.Proofs.Mapping.Config
import MapPlan.Proofs.Mapping.Conflict
import MapPlan.Proofs.Mapping.Diagnostic
import MapPlan.Proofs.Mapping.Directives
import MapPlan.Proofs.Mapping.Entry
import MapPlan.Proofs.Mapping.Registry
import MapPlan.Proofs.Mapping.Snapshot
import MapPlan.Proofs.Plan.Accounting
import MapPlan.Proofs.Plan.Closure
import MapPlan.Proofs.Plan.Coverage
import MapPlan.Proofs.Plan.Decision
import MapPlan.Proofs.Plan.Emission
import MapPlan.Proofs.Plan.Escalation
import MapPlan.Proofs.Plan.Growth
import MapPlan.Proofs.Plan.History
import MapPlan.Proofs.Plan.Influence
import MapPlan.Proofs.Plan.Introspection
import MapPlan.Proofs.Plan.Locality
import MapPlan.Proofs.Plan.Materialization
import MapPlan.Proofs.Plan.Preimage
import MapPlan.Proofs.Plan.Refusal
import MapPlan.Proofs.Plan.Settings
import MapPlan.Proofs.Plan.Transparency
import MapPlan.Proofs.Regex
import MapPlan.Proofs.Shape.Catalog
import MapPlan.Proofs.Shape.FieldSet
import MapPlan.Proofs.Text.Slice
import MapPlan.Regex
import MapPlan.Report
import MapPlan.Shape.Assignable
import MapPlan.Shape.Catalog
import MapPlan.Shape.Field
import MapPlan.Shape.FieldSet
import MapPlan.Shape.Table
import MapPlan.Text.Alphabetic
import MapPlan.Text.Blank
import MapPlan.Text.Hex
import MapPlan.Text.Identifier
import MapPlan.Text.Lowercase
import MapPlan.Text.Numeric
import MapPlan.Text.Ranges
import MapPlan.Text.Size
import MapPlan.Toml.Basic
import MapPlan.Yaml.Character
import MapPlan.Yaml.Node
import MapPlan.Yaml.Scalar
import MapPlan.Yaml.Token
