import SemanticCore.Graph.Build

/-!
# Equivalence of expressions

Expressions are not interned, so two handles can name expressions of the same structure.
`Graph.equivalent` decides whether they do.  Declarations and types are compared by handle, and
expressions inside expressions again by structure.

The static type counts only where the form does not fix it, that is for integer literals and for
conversions.  Two calls whose types are different placeholders are therefore equivalent as soon as
callee and arguments are.

The comparison goes from an expression to expressions that were built before it, so it ends.
-/

set_option autoImplicit false
namespace SemanticCore

/-- Two arguments agree, given when two expressions do. -/
def Term.agree (same : ExprHandle → ExprHandle → Bool) : Term → Term → Bool
  | expr x, expr y => same x y
  | a, b => a == b

/-- Two requirements agree, given when two expressions do. -/
def ReqForm.agree (same : ExprHandle → ExprHandle → Bool) : ReqForm → ReqForm → Bool
  | basic x, basic y => same x y
  | type s, type t => s == t
  | conversion x s, conversion y t => s == t && same x y
  | _, _ => false

namespace Graph

/-- Two expressions agree, given when the expressions inside them do. -/
def agree (g : Graph) (same : ExprHandle → ExprHandle → Bool) (a b : Expr) : Bool :=
  match a.form, b.form with
  | .boolean x, .boolean y => x == y
  | .integer x, .integer y => x == y && a.type == b.type
  | .reference x, .reference y => x == y
  | .templateRef x, .templateRef y => x == y
  | .synthetic x, .synthetic y => x == y
  | .check c xs, .check d ys => c == d && xs.isEqv ys (Term.agree same)
  | .binary o x x', .binary p y y' => o == p && same x y && same x' y'
  | .not x, .not y => same x y
  | .call f xs, .call h ys => same f h && xs.isEqv ys same
  | .conversion k x, .conversion l y => k == l && a.type == b.type && same x y
  | .requires ts ps rs, .requires us qs ss =>
    ts == us && ps == qs && rs.isEqv ss fun r s => (g.req r).agree same (g.req s)
  | _, _ => false

/-- The two expressions have the same structure. -/
def equivalent (g : Graph) (a b : ExprHandle) : Bool :=
  a == b ||
    g.agree (fun x y => if _ : x < a then g.equivalent x y else x == y) (g.expr a) (g.expr b)
termination_by a.index
decreasing_by assumption

/-- The two lists hold equivalent expressions in the same order. -/
def equivalentAll (g : Graph) (as bs : List ExprHandle) : Bool :=
  as.isEqv bs g.equivalent

end Graph
end SemanticCore
