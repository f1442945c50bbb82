import NifBindings.Inspection
import NifBindings.Main
import NifBindings.File.Tree
import NifBindings.Proofs.Expr.Cut
import NifBindings.Proofs.Expr.Shape
import NifBindings.Proofs.Expr.Respelling
import NifBindings.Proofs.OrderedMap
import NifBindings.Proofs.Field.Collapse
import NifBindings.Proofs.Expr.Joined
import NifBindings.Proofs.Expr.Form
import NifBindings.Proofs.Field.Presence
import NifBindings.Proofs.Expr.Precedence
import NifBindings.Proofs.Expr.Grouping
import NifBindings.Proofs.Expr.Operand
import NifBindings.Proofs.Field.Merge
import NifBindings.Proofs.Hierarchy.Links
import NifBindings.Proofs.Hierarchy.Ancestry
import NifBindings.Proofs.Hierarchy.Cycle
import NifBindings.Proofs.Hierarchy.Walk
import NifBindings.Proofs.Hierarchy.Resolution
import NifBindings.Proofs.Hierarchy.Forest
import NifBindings.Proofs.Text.Decimal
import NifBindings.Proofs.Text.Trimming
import NifBindings.Proofs.Version.Order
import NifBindings.Proofs.Version.Check
import NifBindings.Proofs.Version.Selection
import NifBindings.Proofs.Version.Support
import NifBindings.Proofs.Model.Reading
import NifBindings.Proofs.Source.Failure
import NifBindings.Proofs.Model.Collision
import NifBindings.Proofs.Source.Dispatch
import NifBindings.Proofs.Source.Lineage
import NifBindings.Proofs.Model.Keeping
import NifBindings.Proofs.Source.Reference
import NifBindings.Proofs.Markup.Grammar
import NifBindings.Proofs.Markup.References
import NifBindings.Proofs.Markup.Tags
import NifBindings.Proofs.Markup.Declarations
import NifBindings.Proofs.Markup.Reading
import NifBindings.Proofs.Markup.Complete
import NifBindings.Proofs.Markup.Assignments
import NifBindings.Proofs.Markup.Headers
import NifBindings.Proofs.Field.Outcome
import NifBindings.Proofs.CommandLine.Run
import NifBindings.Proofs.Model.Findings
import NifBindings.Proofs.Model.Exclusion
import NifBindings.Proofs.Model.Interleaving
import NifBindings.Proofs.Source.ReadOrder
import NifBindings.Proofs.Expr.Balance
import NifBindings.Proofs.Expr.Enclosed
import NifBindings.Proofs.Field.Isolation
import NifBindings.Proofs.Field.Override
import NifBindings.Proofs.Model.Foreign
import NifBindings.Proofs.Source.Argument
import NifBindings.Proofs.File.Location
import NifBindings.Proofs.File.Growth
import NifBindings.Proofs.File.Access
import NifBindings.Proofs.File.Writing
import NifBindings.Proofs.CommandLine.Effect
import NifBindings.Proofs.Expr.Rejection
import NifBindings.Proofs.Expr.Sign
import NifBindings.Proofs.Expr.Parentheses
import NifBindings.Proofs.Version.Literal
import NifBindings.Proofs.Expr.Word
import NifBindings.Proofs.Source.Forwarding
import NifBindings.Proofs.Expr.Missing
import NifBindings.Proofs.Version.Lifetime
import NifBindings.Proofs.Model.Defaults
import NifBindings.Proofs.Source.Annotation
import NifBindings.Proofs.Source.Scope
import NifBindings.Proofs.Source.ReadLines
import NifBindings.Proofs.Source.Comment
