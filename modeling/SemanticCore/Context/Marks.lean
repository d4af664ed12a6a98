import SemanticCore.Context.Basic

/-!
# Marks

A construct with several readings is tried one way, and if that fails, another.  Before a trial the
context is marked: the marks are the sizes of its stacks.  Restoring them cuts what was added since
then.  Frames have to be left before that, which is a precondition; nodes of the term graph stay.
-/

set_option autoImplicit false
namespace SemanticCore

/-- The sizes of a context's stacks at some moment. -/
structure Marks where
  scopes : Nat
  bindings : Nat
  templates : Nat
  requirements : Nat
  /-- The number of expressions required by the innermost requires-expression. -/
  required : Nat
  diagnostics : Nat
deriving DecidableEq, Inhabited

namespace Context

variable (c : Context)

/-- Mark the context. -/
def marks : Marks where
  scopes := c.depth
  bindings := c.bindings.length
  templates := c.templates.length
  requirements := c.requirements.length
  required := c.requiredExprs.length
  diagnostics := c.diagnostics.size

/-- Cut the expressions required by the innermost requires-expression to the first `n`. -/
def cutRequired (n : Nat) : List (List ExprHandle) → List (List ExprHandle)
  | [] => []
  | required :: outer => required.take n :: outer

/-- Cut the context back to its marks. -/
def restore (m : Marks) : Except Misuse Context :=
  if c.depth ≠ m.scopes then .error .scopeDepth
  else if c.templates.length ≠ m.templates then .error .templateDepth
  else .ok { c with
    bindings := oldest m.bindings c.bindings
    requirements := cutRequired m.required (oldest m.requirements c.requirements)
    diagnostics := c.diagnostics.truncate m.diagnostics }

end Context
end SemanticCore
