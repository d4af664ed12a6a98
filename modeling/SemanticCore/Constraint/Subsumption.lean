import SemanticCore.Constraint.Normal
import SemanticCore.Expr.Equivalence

/-!
# Subsumption

One constraint subsumes another if the second holds whenever the first does.  This is decided on
normal forms: every clause of the first one's disjunctive form has to share an atom with every
clause of the second one's conjunctive form.

Predicates over equivalent expressions count as one atom, although their handles differ.
-/

set_option autoImplicit false
namespace SemanticCore

namespace Graph

variable (g : Graph)

/-- The two constraints are the same atom. -/
def sameAtom (a b : ConsHandle) : Bool :=
  a == b ||
    match g.cons a, g.cons b with
    | .predicate x, .predicate y => g.equivalent x y
    | _, _ => false

/-- The two clauses have an atom in common. -/
def shareAtom (as bs : Clause) : Bool :=
  as.any fun a => bs.any fun b => g.sameAtom a b

/-- The first constraint subsumes the second. -/
def consSubsumes (p q : ConsHandle) : Bool :=
  p == q ||
    let clauses := g.conjunctiveForm q
    (g.disjunctiveForm p).all fun as => clauses.all fun bs => g.shareAtom as bs

end Graph

/-- The constraint that the first expression states subsumes that of the second. -/
def Build.subsumes (lhs rhs : ExprHandle) : Build Bool := do
  let p ← normalize lhs
  let q ← normalize rhs
  return (← get).consSubsumes p q

end SemanticCore
