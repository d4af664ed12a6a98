import SemanticCore.Proofs.Action.Step
import SemanticCore.Proofs.Action.Run

/-!
# Programs of a client

A client of the semantic core is a program of its public operations.  `ClientProgram` is such a
program as a tree: what it does next may depend on everything that the operations have answered, the
bodies of constructs and frames are programs again, and every branch is finite.  `ClientProgram.run`
carries it out, operation by operation.

Marks are handed out as tickets.  A ticket is good in the frame in which the mark was taken, while
that frame is innermost (`Action.ownMarks`); elsewhere it names a mark of the frame that is
innermost then, or nothing.

Operations that only put others together are left out: a warning is a change to the queue, a report
of a semantic error looks up the place in the source first, and a class is defined by building.
-/

set_option autoImplicit false
namespace SemanticCore

/-! ## Frames -/

/-- A frame that a client may enter. -/
inductive Frame where
  /-- The scope of a declaration. -/
  | scope (owner : DeclHandle)
  | template (params : List DeclHandle) (constraint : Option ExprHandle)
  | requirements

namespace Frame

/-- Enter the frame. -/
def enter : Frame → Context → Context
  | scope owner, c => c.pushScope owner
  | template params constraint, c => c.pushTemplate params constraint
  | requirements, c => c.pushRequirements

/-- Leave the frame. -/
def leave : Frame → Context → Context
  | scope _, c => c.popScope
  | template _ _, c => c.popTemplate
  | requirements, c => c.popRequirements

end Frame

/-- The context but for its scopes and what is bound in them. -/
def Context.unscoped (c : Context) : Context :=
  { c with scopes := [], bindings := [] }

namespace Action

variable {ρ α : Type}

/-- Run the body in a frame. -/
def within (f : Frame) (body : Action ρ α) : Action ρ α :=
  bracket f.enter f.leave body

/-- Look at the graph, and at all of the context but its scopes. -/
def look : Action ρ (Graph × Context) := do
  return (← graph, (← context).unscoped)

/-- Change the queue of diagnostics. -/
def changeQueue (k : DiagnosticQueue → α × DiagnosticQueue) : Action ρ α := do
  let c ← context
  modifyContext ({ · with diagnostics := (k c.diagnostics).2 })
  return (k c.diagnostics).1

/-! ## Marks of a frame -/

/-- Mark the context, and get a ticket for the mark. -/
def takeMark : Action (List Marks) Nat := do
  let m ← mark
  modifyGet fun s => (s.client.length, { s with client := s.client ++ [m] })

/-- Restore the mark of a ticket. -/
def restoreMark (ticket : Nat) : Action (List Marks) Unit := do
  match (← get).client[ticket]? with
  | some m => restore m
  | none => return ()

section RestoreMark

variable {s : Session (List Marks)} {ticket : Nat}

theorem restoreMark_of_some {m : Marks} (h : s.client[ticket]? = some m) :
    restoreMark ticket s = restore m s :=
  (bind_of_ok rfl).trans (by rw [h])

theorem restoreMark_of_none (h : s.client[ticket]? = none) :
    restoreMark ticket s = (.ok (), s) :=
  (bind_of_ok rfl).trans (by rw [h]; rfl)

end RestoreMark

/-- Run the body with marks of its own. -/
def ownMarks (body : Action (List Marks) α) : Action (List Marks) α := fun s =>
  let (result, s') := body { s with client := [] }
  (result, { s' with client := s.client })

end Action

/-! ## Programs -/

/-- A program of a client, and what it returns. -/
inductive ClientProgram : Type → Type 1
  | pure {α : Type} (a : α) : ClientProgram α
  | bind {α β : Type} (p : ClientProgram α) (f : α → ClientProgram β) : ClientProgram β
  /-- Fail with a semantic error, which may be recoverable or not. -/
  | fail {α : Type} (e : SemanticError) : ClientProgram α
  /-- Give up for reasons of the client. -/
  | abandon {α : Type} : ClientProgram α
  /-- Go on after a failure. -/
  | observe {α : Type} (p : ClientProgram α) : ClientProgram (Except Failure α)
  | look : ClientProgram (Graph × Context)
  /-- Run any computation on the graph. -/
  | build {α : Type} (x : Build α) : ClientProgram α
  | changeQueue {α : Type} (k : DiagnosticQueue → α × DiagnosticQueue) : ClientProgram α
  | reportError (d : Diagnostic) : ClientProgram Unit
  | setLocation (span : Span) : ClientProgram Unit
  /-- The declaration that the innermost scope belongs to. -/
  | currentScope : ClientProgram DeclHandle
  /-- The number of open scopes. -/
  | depth : ClientProgram Nat
  | bindName (n : NameHandle) (d : DeclHandle) : ClientProgram Unit
  | lookup (n : NameHandle) : ClientProgram (Option DeclHandle)
  | lookupLocal (n : NameHandle) : ClientProgram (Option DeclHandle)
  | require (e : ExprHandle) : ClientProgram ExprHandle
  | mark : ClientProgram Nat
  | restore (ticket : Nat) : ClientProgram Unit
  | trial {α : Type} (p : ClientProgram α) : ClientProgram α
  | within {α : Type} (f : Frame) (p : ClientProgram α) : ClientProgram α
  | nameExpr (n : NameHandle) : ClientProgram ExprHandle
  | call (callee : ExprHandle) (args : List ExprHandle) : ClientProgram ExprHandle
  | variableDecl (n : NameHandle) (t : TypeHandle) (written : Option InitSyntax) :
    ClientProgram DeclHandle
  | functionDecl (n : NameHandle) (params : List DeclHandle) (ret : TypeHandle) :
    ClientProgram DeclHandle
  | classDecl (n : NameHandle) : ClientProgram DeclHandle
  | defineFunction (f : DeclHandle) (body : ClientProgram StmtHandle) : ClientProgram Unit
  | templateDecl (params : List DeclHandle) (constraint : Option ExprHandle)
    (pattern : ClientProgram DeclHandle) : ClientProgram DeclHandle
  | conceptDecl (n : NameHandle) (params : List DeclHandle)
    (definition : ClientProgram ExprHandle) : ClientProgram DeclHandle
  | requiresExpr (tparams params : List DeclHandle) (reqs : ClientProgram (List ReqHandle)) :
    ClientProgram ExprHandle

namespace ClientProgram

/-- Carry out the program. -/
def run : {α : Type} → ClientProgram α → Action (List Marks) α
  | _, pure a => Pure.pure a
  | _, bind p f => p.run >>= fun a => (f a).run
  | _, fail e => throw (.error e)
  | _, abandon => throw .abandoned
  | _, observe p => Action.observe p.run
  | _, look => Action.look
  | _, build x => Action.build x
  | _, changeQueue k => Action.changeQueue k
  | _, reportError d => Action.reportError d
  | _, setLocation span => Action.modifyContext (·.setLocation span)
  | _, currentScope => return (← Action.context).currentScope
  | _, depth => return (← Action.context).depth
  | _, bindName n d => Action.modifyContext (·.bind n d)
  | _, lookup n => return (← Action.context).lookup? n
  | _, lookupLocal n => Action.lookupLocal? n
  | _, require e => Action.require e
  | _, mark => Action.takeMark
  | _, restore ticket => Action.restoreMark ticket
  | _, trial p => Action.trial p.run
  | _, within f p => Action.within f (Action.ownMarks p.run)
  | _, nameExpr n => Action.nameExpr n
  | _, call callee args => Action.call callee args
  | _, variableDecl n t written => Action.variableDecl n t written
  | _, functionDecl n params ret => Action.functionDecl n params ret
  | _, classDecl n => Action.classDecl n
  | _, defineFunction f body => Action.defineFunction f (Action.ownMarks body.run)
  | _, templateDecl params constraint pattern =>
    Action.templateDecl params constraint (Action.ownMarks pattern.run)
  | _, conceptDecl n params definition =>
    Action.conceptDecl n params (Action.ownMarks definition.run)
  | _, requiresExpr tparams params reqs =>
    Action.requiresExpr tparams params (Action.ownMarks reqs.run)

end ClientProgram
end SemanticCore
