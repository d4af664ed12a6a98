import SemanticCore.Error.Build
import SemanticCore.Type.Category

/-!
# Constructing constraints

Constraints are interned, and conjunction and disjunction are kept in a normal form: the operands
stand in the order of their handles, and a conjunction or disjunction of a constraint with itself
is that constraint.  Constraints that differ only in the order of operands are the same node.
-/

set_option autoImplicit false
namespace SemanticCore
namespace Build

/-- A concept applied to arguments. -/
def conceptConstraint (concept : DeclHandle) (args : List Term) :
    Attempt BuildError ConsHandle := do
  if (← get).isConceptDecl concept then
    constraint (.concept concept args)
  else
    throw (.malformed .constraintOnNonConcept)

/-- An expression taken as it is. -/
def predicate (e : ExprHandle) : Build ConsHandle :=
  constraint (.predicate e)

/-- Both constraints. -/
def conjunction (lhs rhs : ConsHandle) : Build ConsHandle :=
  if lhs = rhs then pure lhs
  else if lhs ≤ rhs then constraint (.conjunction lhs rhs)
  else constraint (.conjunction rhs lhs)

/-- Either constraint. -/
def disjunction (lhs rhs : ConsHandle) : Build ConsHandle :=
  if lhs = rhs then pure lhs
  else if lhs ≤ rhs then constraint (.disjunction lhs rhs)
  else constraint (.disjunction rhs lhs)

end Build
end SemanticCore
