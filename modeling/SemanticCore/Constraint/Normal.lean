import SemanticCore.Constraint.Form

/-!
# Normal forms of constraints

A constraint expression is read as a formula: `&&` and `||` connect, and every other expression is
an atom, either a concept applied to arguments or a predicate.  `Build.normalize` makes the formula
a constraint node.

The disjunctive and the conjunctive form of a constraint are lists of clauses, and a clause is a
list of atoms.
-/

set_option autoImplicit false
namespace SemanticCore

/-- The constraint that an expression states. -/
def Build.normalize (e : ExprHandle) : Build ConsHandle := do
  match ((← get).expr e).form with
  | .binary .and lhs rhs =>
    if _ : lhs < e ∧ rhs < e then
      let l ← normalize lhs
      let r ← normalize rhs
      conjunction l r
    else
      predicate e
  | .binary .or lhs rhs =>
    if _ : lhs < e ∧ rhs < e then
      let l ← normalize lhs
      let r ← normalize rhs
      disjunction l r
    else
      predicate e
  | .check concept args =>
    match ← (conceptConstraint concept args).run with
    | .ok c => pure c
    | .error _ => predicate e
  | _ => predicate e
termination_by e.index
decreasing_by all_goals simp_all [Handle.lt_iff]

/-- Atoms, joined by one connective. -/
abbrev Clause := List ConsHandle

/-- Every clause of the first list joined with every clause of the second. -/
def distribute (as bs : List Clause) : List Clause :=
  as.flatMap fun a => bs.map (a ++ ·)

namespace Graph

/-- Clauses of which some clause holds exactly if the constraint does; a clause holds if all its
atoms do. -/
def disjunctiveForm (g : Graph) (c : ConsHandle) : List Clause :=
  match g.cons c with
  | .disjunction lhs rhs =>
    if _ : lhs < c ∧ rhs < c then g.disjunctiveForm lhs ++ g.disjunctiveForm rhs else [[c]]
  | .conjunction lhs rhs =>
    if _ : lhs < c ∧ rhs < c then distribute (g.disjunctiveForm lhs) (g.disjunctiveForm rhs)
    else [[c]]
  | _ => [[c]]
termination_by c.index
decreasing_by all_goals simp_all [Handle.lt_iff]

/-- Clauses that all hold exactly if the constraint does; a clause holds if some atom of it
does. -/
def conjunctiveForm (g : Graph) (c : ConsHandle) : List Clause :=
  match g.cons c with
  | .conjunction lhs rhs =>
    if _ : lhs < c ∧ rhs < c then g.conjunctiveForm lhs ++ g.conjunctiveForm rhs else [[c]]
  | .disjunction lhs rhs =>
    if _ : lhs < c ∧ rhs < c then distribute (g.conjunctiveForm lhs) (g.conjunctiveForm rhs)
    else [[c]]
  | _ => [[c]]
termination_by c.index
decreasing_by all_goals simp_all [Handle.lt_iff]

/-- The operands that are reached through conjunctions, from left to right. -/
def conjuncts (g : Graph) (c : ConsHandle) : List ConsHandle :=
  match g.cons c with
  | .conjunction lhs rhs =>
    if _ : lhs < c ∧ rhs < c then g.conjuncts lhs ++ g.conjuncts rhs else [c]
  | _ => [c]
termination_by c.index
decreasing_by all_goals simp_all [Handle.lt_iff]

end Graph
end SemanticCore
