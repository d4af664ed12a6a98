import SemanticCore.Action.Basic
import SemanticCore.Decl.Form
import SemanticCore.Expr.Form
import SemanticCore.Initialization

/-!
# Names and declarations

A declaring action builds a declaration, binds its name in the innermost scope, and places the
declaration there.  A scope binds a name once: declaring it again is an error that names the
earlier declaration.

Functions, templates and concepts enclose a part that is resolved while their parameters are in
scope; that part is the body passed to the action.
-/

set_option autoImplicit false
namespace SemanticCore
/-- Initialize a variable from an initializer as it was written, or by default. -/
def Build.initVariable (d : DeclHandle) (t : TypeHandle)
    (written : Option InitSyntax) : Attempt SemanticError Unit := do
  let i ← match written with
    | some written => initFrom t written
    | none => initDefault t
  (setInitializer d i).adapt .ofBuild

namespace Action

variable {ρ : Type}

/-! ## Names -/

/-- The declaration that the innermost scope binds a name to. -/
def lookupLocal? (n : NameHandle) : Action ρ (Option DeclHandle) := do
  match (← context).lookupLocal? n with
  | .ok d => return d
  | .error m => throw (.misuse m)

/-- Resolve a name that is used as an expression. -/
def nameExpr (n : NameHandle) : Action ρ ExprHandle := do
  match (← context).lookup? n with
  | none => throw (.error (.type (.undeclaredName ((← graph).spelling n))))
  | some d =>
    match ((← graph).decl d).form with
    | .var _ _ | .function _ _ _ | .objectParam _ | .valueParam _ => construct (.referenceTo d)
    | .template _ _ _ => construct (.templateReference d)
    | .ofNamespace | .ofClass _ | .concept _ _ | .typeParam _ =>
      throw (.error (.type (.notAValue d)))

/-! ## Declaring -/

/-- Bind the name of a declaration in the innermost scope, and place the declaration there. -/
def declare (d : DeclHandle) : Action ρ Unit := do
  let n := ((← graph).decl d).name
  match ← lookupLocal? n with
  | some earlier => throw (.error (.type (.redefinition earlier)))
  | none =>
    modifyContext (·.bind n d)
    build (.setContext d (← context).currentScope)

/-- Declare each of the declarations, in order. -/
def declareAll (ds : List DeclHandle) : Action ρ Unit :=
  ds.forM declare

/-- Declare a variable.  It is in scope in its own initializer; if it cannot be initialized, its
name is unbound again. -/
def variableDecl (n : NameHandle) (t : TypeHandle) (written : Option InitSyntax) :
    Action ρ DeclHandle := do
  let d ← build (.variableDecl n t none)
  let marks := (← context).marks
  declare d
  match ← build (Build.initVariable d t written).run with
  | .ok () => return d
  | .error e =>
    restore marks
    throw (.error e)

/-- Declare a function. -/
def functionDecl (n : NameHandle) (params : List DeclHandle) (ret : TypeHandle) :
    Action ρ DeclHandle := do
  let f ← construct (.functionDecl n params ret)
  declare f
  build (.setContexts params f)
  return f

/-- Declare a class. -/
def classDecl (n : NameHandle) : Action ρ DeclHandle := do
  let d ← build (.classDecl n)
  declare d
  return d

/-- Define a class by its members, which are placed in it. -/
def defineClass (d : DeclHandle) (members : List DeclHandle) : Action ρ Unit := do
  let definition ← build (.defn (.ofClass members))
  build (.setContexts members d)
  construct (.define d definition)

/-! ## Declarations with a body -/

/-- Define a function.  Its parameters are in scope in the body. -/
def defineFunction (f : DeclHandle) (body : Action ρ StmtHandle) : Action ρ Unit := do
  let .function _ params _ := ((← graph).decl f).form
    | throw (.error (.fault (.definitionOfNonFunction f)))
  let stmt ← withScope f do
    declareAll params
    body
  let definition ← build (.defn (.function stmt))
  construct (.define f definition)

/-- Declare a template.  Its parameters are in scope, and its constraint holds, in the declaration
that it parameterizes.  The template is declared in the scope around it. -/
def templateDecl (params : List DeclHandle) (constraint : Option ExprHandle)
    (pattern : Action ρ DeclHandle) : Action ρ DeclHandle := do
  let pattern ← withTemplate params constraint do
    declareAll params
    pattern
  let template ← build (.templateDecl params pattern constraint)
  declare template
  build (.setContext pattern template)
  build (.setContexts params template)
  return template

/-- Declare a concept.  Its parameters are in scope in its definition. -/
def conceptDecl (n : NameHandle) (params : List DeclHandle) (definition : Action ρ ExprHandle) :
    Action ρ DeclHandle := do
  let e ← withTemplate params none do
    declareAll params
    definition
  let concept ← build (.conceptOfExpr n params e)
  declare concept
  build (.setContexts params concept)
  return concept

/-- Resolve a requires-expression.  Its parameters are in scope in its requirements, and dependent
calls made there are required and not resolved. -/
def requiresExpr (tparams params : List DeclHandle) (reqs : Action ρ (List ReqHandle)) :
    Action ρ ExprHandle := do
  let reqs ← withRequirements do
    declareAll params
    reqs
  build (.requiresExpr tparams params reqs)

end Action
end SemanticCore
