import SemanticCore.Action.Call
import SemanticCore.Action.Declaration
import SemanticCore.Expr.Operator
import SemanticCore.Proofs.Graph.Yields
import SemanticCore.Proofs.Type.Tree
import SemanticCore.Symbol.Shared
import SemanticCore.Proofs.Interning.Tree
import SemanticCore.Proofs.Interning.Request
import SemanticCore.Proofs.Constraint.Formula
import SemanticCore.Proofs.Constraint.Entailment
import SemanticCore.Proofs.Template.Matching
import SemanticCore.Proofs.Template.Substitution
import SemanticCore.Proofs.Template.Deduction
import SemanticCore.Proofs.Action.Extension
import SemanticCore.Proofs.Action.Run
import SemanticCore.Proofs.Context.Trial
import SemanticCore.Proofs.Template.Specialization
import SemanticCore.Proofs.Graph.Operation
import SemanticCore.Proofs.Action.Growth
import SemanticCore.Proofs.Action.Reachable
import SemanticCore.Proofs.Constraint.Subsumption
import SemanticCore.Proofs.Interning.Canonical
import SemanticCore.Proofs.Template.Solution
import SemanticCore.Proofs.Action.Resolved
import SemanticCore.Proofs.Expr.Comparison
import SemanticCore.Proofs.Expr.StaticType
import SemanticCore.Proofs.Template.ValueType
import SemanticCore.Proofs.Template.Defaults
import SemanticCore.Proofs.Action.Sparing
import SemanticCore.Proofs.Action.Nesting
import SemanticCore.Proofs.Action.Renaming
import SemanticCore.Proofs.Action.Initializer
import SemanticCore.Proofs.Action.Refinement
import SemanticCore.Proofs.Action.Stacks
import SemanticCore.Proofs.Action.CallResult
import SemanticCore.Proofs.Action.Ending
import SemanticCore.Proofs.Action.Strictness
import SemanticCore.Proofs.Template.Freshness
import SemanticCore.Proofs.Action.Specialization
import SemanticCore.Proofs.Graph.Reference
import SemanticCore.Proofs.Graph.Traversal
import SemanticCore.Proofs.Constraint.Checks
import SemanticCore.Proofs.Action.Soundness
import SemanticCore.Proofs.Diagnostic.Queue
import SemanticCore.Proofs.Action.Qualification
import SemanticCore.Proofs.Action.Permanence
import SemanticCore.Proofs.Symbol.Sharing
import SemanticCore.Proofs.Template.Composition
import SemanticCore.Proofs.Constraint.Equivalence
import SemanticCore.Proofs.Action.Tidy
import SemanticCore.Proofs.Template.Occurrence
import SemanticCore.Proofs.Type.Qualified
import SemanticCore.Proofs.Action.ReferenceVariable
import SemanticCore.Proofs.Type.Flags
import SemanticCore.Proofs.Action.Conversion
import SemanticCore.Proofs.Action.Refusal
import SemanticCore.Proofs.Action.QualifiedTarget
import SemanticCore.Proofs.Constraint.Rearrangement
import SemanticCore.Proofs.Type.Compatibility
import SemanticCore.Proofs.Type.Arithmetic
import SemanticCore.Proofs.Action.Operand
import SemanticCore.Proofs.Action.Requirement
import SemanticCore.Proofs.Diagnostic.Flush
import SemanticCore.Proofs.Action.Failure
