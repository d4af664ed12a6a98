import SemanticCore.Constraint.Normal
import SemanticCore.Expr.Equivalence

/-!
# Admission

Inside a constrained template an expression can be taken for granted when the constraints already
speak of it.  An atom of the constraints admits an expression if it is an equivalent expression,
or a requires-expression with a requirement on an equivalent one.  Only atoms that hold whenever
the constraints do are asked, that is those reached through conjunctions.
-/

set_option autoImplicit false
namespace SemanticCore

namespace Graph

variable (g : Graph)

/-- The expression of the requirement, if it is equivalent to the given one. -/
def requiredBy? (e : ExprHandle) (r : ReqHandle) : Option ExprHandle :=
  (g.req r).expr?.filter fun x => g.equivalent x e

/-- The expression by which an atom admits `e`. -/
def admittedBy? (e : ExprHandle) (atom : ConsHandle) : Option ExprHandle :=
  match g.cons atom with
  | .predicate p =>
    if g.equivalent p e then some p
    else
      match (g.expr p).form with
      | .requires _ _ reqs => reqs.findSome? (g.requiredBy? e)
      | _ => none
  | _ => none

end Graph

/-- The expression by which the constraints admit `e`. -/
def Build.admission? (constraints e : ExprHandle) : Build (Option ExprHandle) := do
  let c ← normalize constraints
  let g ← get
  return (g.conjuncts c).findSome? (g.admittedBy? e)

end SemanticCore
