import SemanticCore.Proofs.Action.Program
import SemanticCore.Proofs.Context.Tables

/-!
# Programs on a stack of tables

`ClientProgram.onTables` carries out a program of a client with a stack of tables in place of the
scopes and bindings of the context: names are looked up from the innermost table outwards, bound in
the innermost table only, and a frame opens an empty table and throws it away at its end.  The rest
of the context stays what it was, and so do all actions that do not see the scopes.

Marks are the marks of the rest of the context, and the number of bindings in the innermost table.
Restoring them cuts that table, which is the one they were taken in.
-/

set_option autoImplicit false
namespace SemanticCore

/-! ## Sessions with tables -/

/-- Marks of a context with tables. -/
structure TableMark where
  /-- The marks of the rest of the context, which has the global scope only. -/
  rest : Marks
  global : rest.scopes = 1
  /-- The number of bindings in the innermost table. -/
  kept : Nat

/-- The marks that a context with a list of bindings has in its place, if these are the tables. -/
def TableMark.flatten (T : ScopeTables) (k : TableMark) : Marks :=
  { k.rest with scopes := T.depth, bindings := T.beneath.length + k.kept }

/-- The tables, and the marks that a client has taken in the innermost scope. -/
structure Tabled where
  tables : ScopeTables
  marks : List TableMark

namespace Frame

/-- The declaration that the scope of the frame belongs to. -/
def owner (T : ScopeTables) : Frame → DeclHandle
  | scope owner => owner
  | template _ _ | requirements => T.owner

/-- What entering the frame does besides opening a scope. -/
def enterRest : Frame → Context → Context
  | scope _, c => c
  | template params constraint, c => { c with templates := ⟨params, constraint⟩ :: c.templates }
  | requirements, c => { c with requirements := [] :: c.requirements }

/-- What leaving the frame does besides closing its scope. -/
def leaveRest : Frame → Context → Context
  | scope _, c => c
  | template _ _, c => { c with templates := c.templates.tail }
  | requirements, c => { c with requirements := c.requirements.tail }

variable (f : Frame) (c : Context) (T : ScopeTables)

theorem enter_withTables :
    f.enter (c.withTables T) = (f.enterRest c).withTables (T.push (f.owner T)) := by
  cases f with
  | scope owner => exact Context.pushScope_withTables owner
  | template params constraint =>
    rw [enter, Context.pushTemplate, Context.currentScope_withTables]
    rfl
  | requirements =>
    rw [enter, Context.pushRequirements, Context.currentScope_withTables]
    rfl

theorem leave_withTables : f.leave (c.withTables T) = (f.leaveRest c).withTables T.pop := by
  cases f with
  | scope owner => exact Context.popScope_withTables
  | template params constraint =>
    exact Context.popScope_withTables (c := leaveRest (template params constraint) c)
  | requirements => exact Context.popScope_withTables (c := leaveRest requirements c)

theorem scopes_enterRest : (f.enterRest c).scopes = c.scopes := by
  cases f <;> rfl

theorem scopes_leaveRest : (f.leaveRest c).scopes = c.scopes := by
  cases f <;> rfl

end Frame

namespace Tabled

variable {α : Type}

/-! ## Actions on tables -/

/-- The tables as they are now. -/
def getTables : Action Tabled ScopeTables := do
  return (← get).client.tables

/-- Change the tables. -/
def modifyTables (k : ScopeTables → ScopeTables) : Action Tabled Unit :=
  modify fun s => { s with client.tables := k s.client.tables }

/-- The declaration that the innermost scope binds a name to. -/
def lookupLocal? (n : NameHandle) : Action Tabled (Option DeclHandle) := do
  return (← getTables).lookupLocal? n

/-- Run the body in a frame with a table of its own. -/
def within (f : Frame) (body : Action Tabled α) : Action Tabled α := fun s =>
  let T := s.client.tables
  let (result, s) := body { s with
    context := f.enterRest s.context
    client.tables := T.push (f.owner T) }
  (result, { s with
    context := f.leaveRest s.context
    client.tables := s.client.tables.pop })

/-- Mark the context and the innermost table. -/
def mark : Action Tabled TableMark := do
  let c ← Action.context
  return ⟨c.unscoped.marks, rfl, (← getTables).current.length⟩

/-- Cut the context and the innermost table back to their marks. -/
def restore (k : TableMark) : Action Tabled Unit := do
  Action.restore k.rest
  modifyTables (·.cut k.kept)

/-- Run the body, and restore the marks if it fails in a way that can be recovered from. -/
def trial (body : Action Tabled α) : Action Tabled α := do
  let k ← mark
  tryCatch body fun failure => do
    if failure.isRecoverable then
      restore k
    throw failure

/-- Mark the context and the innermost table, and get a ticket for the mark. -/
def takeMark : Action Tabled Nat := do
  let k ← mark
  modifyGet fun s => (s.client.marks.length, { s with client.marks := s.client.marks ++ [k] })

/-- Restore the mark of a ticket. -/
def restoreMark (ticket : Nat) : Action Tabled Unit := do
  match (← get).client.marks[ticket]? with
  | some k => restore k
  | none => return ()

section RestoreMark

variable {s : Session Tabled} {ticket : Nat}

theorem restoreMark_of_some {k : TableMark} (h : s.client.marks[ticket]? = some k) :
    restoreMark ticket s = restore k s :=
  (Action.bind_of_ok rfl).trans (by rw [h])

theorem restoreMark_of_none (h : s.client.marks[ticket]? = none) :
    restoreMark ticket s = (.ok (), s) :=
  (Action.bind_of_ok rfl).trans (by rw [h]; rfl)

end RestoreMark

/-- Run the body with marks of its own. -/
def ownMarks (body : Action Tabled α) : Action Tabled α := fun s =>
  let (result, s') := body { s with client.marks := [] }
  (result, { s' with client.marks := s.client.marks })

/-! ## Names and declarations -/

/-- Resolve a name that is used as an expression. -/
def nameExpr (n : NameHandle) : Action Tabled ExprHandle := do
  match (← getTables).lookup? n with
  | none => throw (.error (.type (.undeclaredName ((← Action.graph).spelling n))))
  | some d =>
    match ((← Action.graph).decl d).form with
    | .var _ _ | .function _ _ _ | .objectParam _ | .valueParam _ =>
      Action.construct (.referenceTo d)
    | .template _ _ _ => Action.construct (.templateReference d)
    | .ofNamespace | .ofClass _ | .concept _ _ | .typeParam _ =>
      throw (.error (.type (.notAValue d)))

/-- Bind the name of a declaration in the innermost table, and place the declaration there. -/
def declare (d : DeclHandle) : Action Tabled Unit := do
  let n := ((← Action.graph).decl d).name
  match ← lookupLocal? n with
  | some earlier => throw (.error (.type (.redefinition earlier)))
  | none =>
    modifyTables (·.bind n d)
    Action.build (.setContext d (← getTables).owner)

/-- Declare each of the declarations, in order. -/
def declareAll (ds : List DeclHandle) : Action Tabled Unit :=
  ds.forM declare

/-- Declare a variable. -/
def variableDecl (n : NameHandle) (t : TypeHandle) (written : Option InitSyntax) :
    Action Tabled DeclHandle := do
  let d ← Action.build (.variableDecl n t none)
  let k ← mark
  declare d
  match ← Action.build (Build.initVariable d t written).run with
  | .ok () => return d
  | .error e =>
    restore k
    throw (.error e)

/-- Declare a function. -/
def functionDecl (n : NameHandle) (params : List DeclHandle) (ret : TypeHandle) :
    Action Tabled DeclHandle := do
  let f ← Action.construct (.functionDecl n params ret)
  declare f
  Action.build (.setContexts params f)
  return f

/-- Declare a class. -/
def classDecl (n : NameHandle) : Action Tabled DeclHandle := do
  let d ← Action.build (.classDecl n)
  declare d
  return d

/-- Define a function. -/
def defineFunction (f : DeclHandle) (body : Action Tabled StmtHandle) : Action Tabled Unit := do
  let .function _ params _ := ((← Action.graph).decl f).form
    | throw (.error (.fault (.definitionOfNonFunction f)))
  let stmt ← within (.scope f) do
    declareAll params
    body
  let definition ← Action.build (.defn (.function stmt))
  Action.construct (.define f definition)

/-- Declare a template. -/
def templateDecl (params : List DeclHandle) (constraint : Option ExprHandle)
    (pattern : Action Tabled DeclHandle) : Action Tabled DeclHandle := do
  let pattern ← within (.template params constraint) do
    declareAll params
    pattern
  let template ← Action.build (.templateDecl params pattern constraint)
  declare template
  Action.build (.setContext pattern template)
  Action.build (.setContexts params template)
  return template

/-- Declare a concept. -/
def conceptDecl (n : NameHandle) (params : List DeclHandle)
    (definition : Action Tabled ExprHandle) : Action Tabled DeclHandle := do
  let e ← within (.template params none) do
    declareAll params
    definition
  let concept ← Action.build (.conceptOfExpr n params e)
  declare concept
  Action.build (.setContexts params concept)
  return concept

/-- Resolve a requires-expression. -/
def requiresExpr (tparams params : List DeclHandle) (reqs : Action Tabled (List ReqHandle)) :
    Action Tabled ExprHandle := do
  let reqs ← within .requirements do
    declareAll params
    reqs
  Action.build (.requiresExpr tparams params reqs)

end Tabled

/-- Carry out the program on tables. -/
def ClientProgram.onTables : {α : Type} → ClientProgram α → Action Tabled α
  | _, pure a => Pure.pure a
  | _, bind p f => p.onTables >>= fun a => (f a).onTables
  | _, fail e => throw (.error e)
  | _, abandon => throw .abandoned
  | _, observe p => Action.observe p.onTables
  | _, look => Action.look
  | _, build x => Action.build x
  | _, changeQueue k => Action.changeQueue k
  | _, reportError d => Action.reportError d
  | _, setLocation span => Action.modifyContext (·.setLocation span)
  | _, currentScope => return (← Tabled.getTables).owner
  | _, depth => return (← Tabled.getTables).depth
  | _, bindName n d => Tabled.modifyTables (·.bind n d)
  | _, lookup n => return (← Tabled.getTables).lookup? n
  | _, lookupLocal n => Tabled.lookupLocal? n
  | _, require e => Action.require e
  | _, mark => Tabled.takeMark
  | _, restore ticket => Tabled.restoreMark ticket
  | _, trial p => Tabled.trial p.onTables
  | _, within f p => Tabled.within f (Tabled.ownMarks p.onTables)
  | _, nameExpr n => Tabled.nameExpr n
  | _, call callee args => Action.call callee args
  | _, variableDecl n t written => Tabled.variableDecl n t written
  | _, functionDecl n params ret => Tabled.functionDecl n params ret
  | _, classDecl n => Tabled.classDecl n
  | _, defineFunction f body => Tabled.defineFunction f (Tabled.ownMarks body.onTables)
  | _, templateDecl params constraint pattern =>
    Tabled.templateDecl params constraint (Tabled.ownMarks pattern.onTables)
  | _, conceptDecl n params definition =>
    Tabled.conceptDecl n params (Tabled.ownMarks definition.onTables)
  | _, requiresExpr tparams params reqs =>
    Tabled.requiresExpr tparams params (Tabled.ownMarks reqs.onTables)

end SemanticCore
