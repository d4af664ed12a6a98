import SemanticCore.Context.Marks
import SemanticCore.Error.Semantic

/-!
# Actions

An action resolves a construct: it reads and extends the term graph, reads and changes the context,
and may fail.  Failing keeps the state that was reached, in graph and context alike.

Some actions enclose others: the body of a function, say, is resolved while the function's scope is
open.  Such an action takes its body as an action.  Frames are left on every way out of the body
(`Action.bracket`), so after an action the context is at the depth it was at before.

A client that resolves a body may carry a state of its own through it; that is the parameter `ρ`.
The actions here never look at it.
-/

set_option autoImplicit false
namespace SemanticCore

/-- Why an action failed. -/
inductive Failure where
  /-- The construct cannot be resolved. -/
  | error (cause : SemanticError)
  /-- A precondition was broken. -/
  | misuse (cause : Misuse)
  /-- The client gave up on a body for reasons of its own. -/
  | abandoned
deriving DecidableEq, Inhabited

/-- Another reading of the construct may be tried. -/
def Failure.isRecoverable : Failure → Bool
  | error cause => cause.isRecoverable
  | _ => false

/-- What actions work on, together with the state of a client. -/
structure Session (ρ : Type) where
  graph : Graph
  context : Context
  client : ρ

/-- The resolution of a construct. -/
abbrev Action (ρ : Type) := ExceptT Failure (StateM (Session ρ))

namespace Action

variable {ρ α : Type}

/-! ## Reading and changing the state -/

/-- The term graph as it is now. -/
def graph : Action ρ Graph := do
  return (← get).graph

/-- The context as it is now. -/
def context : Action ρ Context := do
  return (← get).context

/-- Run a computation on the term graph. -/
def build (x : Build α) : Action ρ α :=
  modifyGet fun ⟨graph, context, client⟩ =>
    let (a, graph) := x graph
    (a, ⟨graph, context, client⟩)

/-- Run a computation on the term graph that may fail. -/
def attempt (x : Attempt SemanticError α) : Action ρ α := do
  match ← build x.run with
  | .ok a => pure a
  | .error e => throw (.error e)

/-- Run a construction, whose failure becomes a semantic error. -/
def construct (x : Attempt BuildError α) : Action ρ α :=
  attempt (x.adapt .ofBuild)

/-- Change the context. -/
def modifyContext (f : Context → Context) : Action ρ Unit :=
  modify fun s => { s with context := f s.context }

/-- Change the context by an operation that has a precondition. -/
def changeContext (f : Context → Except Misuse Context) : Action ρ Unit := do
  match f (← context) with
  | .ok c => modifyContext fun _ => c
  | .error m => throw (.misuse m)

/-! ## Frames -/

/-- Run the body between entering and leaving, and leave whether or not the body fails. -/
def bracket (enter leave : Context → Context) (body : Action ρ α) : Action ρ α := fun s =>
  let (result, s) := body { s with context := enter s.context }
  (result, { s with context := leave s.context })

/-- Run the body in a scope of a declaration. -/
def withScope (owner : DeclHandle) (body : Action ρ α) : Action ρ α :=
  bracket (·.pushScope owner) (·.popScope) body

/-- Run the body inside a template. -/
def withTemplate (params : List DeclHandle) (constraint : Option ExprHandle) (body : Action ρ α) :
    Action ρ α :=
  bracket (·.pushTemplate params constraint) (·.popTemplate) body

/-- Run the body inside a requires-expression. -/
def withRequirements (body : Action ρ α) : Action ρ α :=
  bracket (·.pushRequirements) (·.popRequirements) body

/-! ## Trials -/

/-- Cut the context back to its marks. -/
def restore (m : Marks) : Action ρ Unit :=
  changeContext (·.restore m)

/-- Run the body, and undo its effect on the context if it fails in a way that can be recovered
from.  After any other failure the context stays as the body left it. -/
def trial (body : Action ρ α) : Action ρ α := do
  let marks := (← context).marks
  tryCatch body fun failure => do
    if failure.isRecoverable then
      restore marks
    throw failure

/-! ## Reports -/

/-- Require an expression in the innermost requires-expression. -/
def require (e : ExprHandle) : Action ρ ExprHandle := do
  let (x, c) := (← context).require (← graph) e
  modifyContext fun _ => c
  return x

/-- Report an error at the current place in the source. -/
def reportError (d : Diagnostic) : Action ρ Unit :=
  changeContext (·.reportError d)

/-- Report a semantic error at the current place in the source. -/
def report (e : SemanticError) : Action ρ Unit := do
  reportError (e.toDiagnostic (← context).location)

end Action
end SemanticCore
