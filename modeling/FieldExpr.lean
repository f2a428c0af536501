import FieldExpr.Artifact.Document
import FieldExpr.Artifact.Reading
import FieldExpr.Binary64.Basic
import FieldExpr.Binary64.Shortest
import FieldExpr.Binary64.Text
import FieldExpr.Cache
import FieldExpr.Capability.Equality
import FieldExpr.Capability.Numeric
import FieldExpr.Capability.Shape
import FieldExpr.CommandLine.Arguments
import FieldExpr.CommandLine.Help
import FieldExpr.CommandLine.Session
import FieldExpr.CommandLine.Switch
import FieldExpr.Config.Basic
import FieldExpr.Config.Reading
import FieldExpr.Decimal.Arithmetic
import FieldExpr.Decimal.Basic
import FieldExpr.Decimal.Text
import FieldExpr.Digest.Basic
import FieldExpr.Digest.Sha256
import FieldExpr.Evaluation.Context
import FieldExpr.Evaluation.Error
import FieldExpr.Evaluation.Evaluator
import FieldExpr.Evaluation.Machine
import FieldExpr.Expression.Basic
import FieldExpr.Expression.Compile
import FieldExpr.Json.Basic
import FieldExpr.Json.Nesting
import FieldExpr.Json.Number
import FieldExpr.Json.Reader
import FieldExpr.Json.Writer
import FieldExpr.Log
import FieldExpr.Main
import FieldExpr.Power
import FieldExpr.Program.Basic
import FieldExpr.Program.Disassembly
import FieldExpr.Program.Scope
import FieldExpr.Proofs.Artifact.Acceptance
import FieldExpr.Proofs.Artifact.Canonical
import FieldExpr.Proofs.Artifact.Limits
import FieldExpr.Proofs.Artifact.Nesting
import FieldExpr.Proofs.Artifact.RoundTrip
import FieldExpr.Proofs.Artifact.Storing
import FieldExpr.Proofs.Binary64.Nearest
import FieldExpr.Proofs.Binary64.Shortest
import FieldExpr.Proofs.Binary64.Text
import FieldExpr.Proofs.Cache
import FieldExpr.Proofs.Cache.History
import FieldExpr.Proofs.Capability.Coherence
import FieldExpr.Proofs.Capability.Integers
import FieldExpr.Proofs.Capability.Numeric
import FieldExpr.Proofs.Capability.ScaledDivision
import FieldExpr.Proofs.Capability.Widening
import FieldExpr.Proofs.CommandLine.Checking
import FieldExpr.Proofs.Decimal.Arithmetic
import FieldExpr.Proofs.Decimal.Division
import FieldExpr.Proofs.Decimal.Nearest
import FieldExpr.Proofs.Decimal.RoundedTwice
import FieldExpr.Proofs.Decimal.Text
import FieldExpr.Proofs.Decimal.Value
import FieldExpr.Proofs.Evaluation.Abreast
import FieldExpr.Proofs.Evaluation.Adequacy
import FieldExpr.Proofs.Evaluation.ByName
import FieldExpr.Proofs.Evaluation.Charge
import FieldExpr.Proofs.Evaluation.Eager
import FieldExpr.Proofs.Evaluation.Forcing
import FieldExpr.Proofs.Evaluation.Interchange
import FieldExpr.Proofs.Evaluation.Irrelevance
import FieldExpr.Proofs.Evaluation.Isolation
import FieldExpr.Proofs.Evaluation.Levels
import FieldExpr.Proofs.Evaluation.Limit
import FieldExpr.Proofs.Evaluation.Lockstep
import FieldExpr.Proofs.Evaluation.Meaning
import FieldExpr.Proofs.Evaluation.Measured
import FieldExpr.Proofs.Evaluation.Once
import FieldExpr.Proofs.Evaluation.Order
import FieldExpr.Proofs.Evaluation.Pipes
import FieldExpr.Proofs.Evaluation.Promises
import FieldExpr.Proofs.Evaluation.Renaming
import FieldExpr.Proofs.Evaluation.Rule
import FieldExpr.Proofs.Evaluation.StandIn
import FieldExpr.Proofs.Evaluation.Substitution
import FieldExpr.Proofs.Evaluation.Unbound
import FieldExpr.Proofs.Expression.Allocation
import FieldExpr.Proofs.Expression.Composition
import FieldExpr.Proofs.Expression.Deferral
import FieldExpr.Proofs.Expression.Meaning
import FieldExpr.Proofs.Expression.Numbering
import FieldExpr.Proofs.Expression.Preservation
import FieldExpr.Proofs.Expression.Renumbering
import FieldExpr.Proofs.Expression.Safety
import FieldExpr.Proofs.Expression.Typing
import FieldExpr.Proofs.Json.Building
import FieldExpr.Proofs.Json.Fractions
import FieldExpr.Proofs.Json.OpenContainers
import FieldExpr.Proofs.Json.Order
import FieldExpr.Proofs.Json.Reading
import FieldExpr.Proofs.Json.Scanning
import FieldExpr.Proofs.Json.SortedKeys
import FieldExpr.Proofs.Program.Canonical
import FieldExpr.Proofs.Program.Congruence
import FieldExpr.Proofs.Program.Deferring
import FieldExpr.Proofs.Program.Disassembly
import FieldExpr.Proofs.Program.FirstDefect
import FieldExpr.Proofs.Program.Free
import FieldExpr.Proofs.Program.Matching
import FieldExpr.Proofs.Program.Nodes
import FieldExpr.Proofs.Program.Scoping
import FieldExpr.Proofs.Resolver
import FieldExpr.Proofs.Text.Digits
import FieldExpr.Proofs.Text.Lines
import FieldExpr.Proofs.Text.Utf8
import FieldExpr.Proofs.Value.Canonical
import FieldExpr.Proofs.Value.Documents
import FieldExpr.Proofs.Value.Paths
import FieldExpr.Proofs.Value.Reordering
import FieldExpr.Proofs.Value.Text
import FieldExpr.Proofs.Value.Wire
import FieldExpr.Resolver
import FieldExpr.Rounding
import FieldExpr.Text.Blank
import FieldExpr.Text.Digits
import FieldExpr.Text.Hex
import FieldExpr.Text.Invisible
import FieldExpr.Text.Quoted
import FieldExpr.Value.Basic
import FieldExpr.Value.Json
import FieldExpr.Value.Path
import FieldExpr.Value.Text
