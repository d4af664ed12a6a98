import SemanticCore.Action.Basic
import SemanticCore.Expr.Form

/-!
# Resolving calls

A call can be checked only once the types of its callee and its arguments are known.  A call that
depends on template parameters is recorded with a placeholder for its type, and then

* inside a requires-expression it becomes a requirement;
* inside a template without constraint it stays as it is;
* where the enclosing constraints speak of it already, their expression is taken;
* otherwise the callee has to be a function template, whose arguments are deduced and which is
  specialized to them.  The constraint of the template has to follow from those around the call.

A call that does not depend on template parameters has to name a function.
-/

set_option autoImplicit false
namespace SemanticCore

/-- The number of parameters and the return type of the function that an expression names. -/
def Graph.namedFunction? (g : Graph) (callee : ExprHandle) : Option (Nat × TypeHandle) :=
  match (g.expr callee).form with
  | .reference d =>
    match (g.declaredType? d).map g.type with
    | some (.function params ret) => some (params.length, ret)
    | _ => none
  | _ => none

/-- Resolve a call that does not depend on template parameters. -/
def Build.resolvedCall (callee : ExprHandle) (args : List ExprHandle) :
    Attempt SemanticError ExprHandle := do
  match (← get).namedFunction? callee with
  | none => throw (.type (.notCallable callee))
  | some (expected, ret) =>
    if expected = args.length then
      call ret callee args
    else
      throw (.type (.argumentCount expected args.length))

/-- The report that a call is not covered by the enclosing constraints. -/
def uncoveredReport (spelling : String) (span : Span) : Diagnostic :=
  ((Diagnostic.ofMessage .warning .w2001
    ("call to function template `" ++ spelling ++ "` not covered by constraints")).withPrimary
    span "called here").withNote
    "the enclosing constraints do not imply the template's constraints"

/-- Deduce the arguments of a function template for a call, and specialize it to them. -/
def Oracle.resolve (o : Oracle) (template : DeclHandle) (tparams params : List DeclHandle)
    (args : List ExprHandle) : Attempt TemplateError DeclHandle := do
  let s ← (o.deduce tparams params args).adapt .deduction
  (o.specialize template s).adapt .specialization

namespace Action

variable {ρ : Type}

/-- The call of a template is not covered by the enclosing constraints. -/
def reportUncovered (template : DeclHandle) : Action ρ Unit := do
  let c ← context
  if c.config.strict then
    throw (.error (.type (.uncoveredCall template)))
  let g ← graph
  modifyContext (·.warn (uncoveredReport (g.spelling (g.decl template).name) c.location))

/-- The enclosing constraints imply the given one. -/
def isCovered (required : ExprHandle) : Action ρ Bool := do
  let c ← context
  match c.currentConstraint? with
  | some ambient => build (c.oracle.subsumes ambient required)
  | none => return false

/-- Resolve a call of a function template. -/
def templateCall (callee : ExprHandle) (template : DeclHandle) (args : List ExprHandle) :
    Action ρ ExprHandle := do
  let .template tparams pattern constraint := ((← graph).decl template).form
    | throw (.error (.fault (.notATemplate template)))
  let .function _ params _ := ((← graph).decl pattern).form
    | throw (.error (.fault (.patternNotAFunction pattern)))
  let oracle := (← context).oracle
  let spec ← attempt ((oracle.resolve template tparams params args).adapt fun cause =>
    .type (.noMatchingCall callee cause))
  let g ← graph
  let some ret := (g.declaredType? spec).bind g.functionRet?
    | throw (.error (.fault (.specializationNotAFunction spec)))
  if let some required := constraint then
    if !(← isCovered required) then
      reportUncovered template
  build (.call ret callee args)

/-- The expression by which the enclosing constraints admit a call. -/
def admitted? (e : ExprHandle) : Action ρ (Option ExprHandle) := do
  let c ← context
  match c.currentConstraint? with
  | some constraints => build (c.oracle.admission? constraints e)
  | none => return none

/-- Resolve a dependent call inside a constrained template, or outside every template. -/
def constrainedCall (callee : ExprHandle) (args : List ExprHandle) (recorded : ExprHandle) :
    Action ρ ExprHandle := do
  if let some e ← admitted? recorded then
    return e
  let g ← graph
  match (g.expr callee).form with
  | .templateRef template => templateCall callee template args
  | .reference d =>
    if g.isFunctionDecl d then
      throw (.error (.unsupported .dependentFunctionCall))
    else
      throw (.error (.fault (.dependentCallee (.reference d))))
  | form => throw (.error (.fault (.dependentCallee form)))

/-- Resolve a call that depends on template parameters. -/
def dependentCall (callee : ExprHandle) (args : List ExprHandle) : Action ρ ExprHandle := do
  let t ← build .autoType
  let recorded ← build (.call t callee args)
  let c ← context
  if c.inRequirements then
    require recorded
  else if c.inUnconstrainedTemplate then
    return recorded
  else
    constrainedCall callee args recorded

/-- Resolve a call. -/
def call (callee : ExprHandle) (args : List ExprHandle) : Action ρ ExprHandle := do
  let g ← graph
  if g.isTypeDependent callee || args.any g.isTypeDependent then
    dependentCall callee args
  else
    attempt (.resolvedCall callee args)

end Action
end SemanticCore
