import SemanticCore.Error.Template
import SemanticCore.Template.Substitution

/-!
# Deducing template arguments

The arguments of a template are found by matching the parameter types of the function against the
types of the call's arguments, both taken by value (`Graph.valueType`).  A parameter of the
template matches any type and is bound to it; everything else has to agree exactly.  What the call
leaves open is then filled from the defaults of the template parameters, in order.
-/

set_option autoImplicit false
namespace SemanticCore

/-- Bind a template parameter to a type. -/
def Substitution.bindType (s : Substitution) (param : DeclHandle) (t : TypeHandle) :
    Except DeductionError Substitution :=
  match s.bind param (.type t) with
  | .ok s => .ok s
  | .error first => .error (.conflict param first (.type t))

namespace Graph

/-- Match the type `p` of a parameter against the type `a` of an argument, and bind the template
parameters that occur in `p`. -/
def matchType (g : Graph) (p a : TypeHandle) (s : Substitution) :
    Except DeductionError Substitution :=
  let part (x y : TypeHandle) (s : Substitution) : Except DeductionError Substitution :=
    if _ : x < p then g.matchType x y s
    else if x = y then .ok s
    else .error (.mismatch x y)
  let same : Except DeductionError Substitution :=
    if p = a then .ok s else .error (.mismatch p a)
  if (g.typeFlags p).parameter then
    match g.type p, g.type a with
    | .typename d, _ => if d ∈ s.params then s.bindType d a else same
    | .pointer x, .pointer y => part x y s
    | .reference x, .reference y => part x y s
    | .sequence x, .sequence y => part x y s
    | .qualified x q, .qualified y r => if q = r then part x y s else same
    | .function xs x, .function ys y =>
      if xs.length = ys.length then do
        let s ← (xs.zip ys).foldlM (fun s (x, y) => part x y s) s
        part x y s
      else
        same
    | _, _ => same
  else
    same
termination_by p.index
decreasing_by assumption

/-- Match the function parameters against the arguments of a call, in order. -/
def matchArgs (g : Graph) (params : List DeclHandle) (args : List ExprHandle) (s : Substitution) :
    Except DeductionError Substitution :=
  (params.zip args).foldlM (fun s (param, arg) =>
    match g.objectParamType? param with
    | some t => g.matchType (g.valueType t) (g.valueType (g.exprType arg)) s
    | none => .error (.notAnObjectParameter param)) s

/-- The default of a template type parameter that has one. -/
def typeDefault? (g : Graph) (d : DeclHandle) : Option TypeHandle :=
  match (g.decl d).form with
  | .typeParam default => default
  | _ => none

end Graph

namespace Build

/-- Give a template parameter its default, unless it has an argument already. -/
def fillDefault (s : Substitution) (param : DeclHandle) :
    Attempt DeductionError Substitution := do
  if s.isBound param then
    return s
  match (← get).typeDefault? param with
  | none => throw (.undeduced param)
  | some default => s.bindType param (← substitute s default)

/-- Deduce the arguments of the template parameters `tparams` for a call of a function with the
given parameters. -/
def deduce (tparams params : List DeclHandle) (args : List ExprHandle) :
    Attempt DeductionError Substitution := do
  if params.length ≠ args.length then
    throw (.argumentCount params.length args.length)
  let s ← (← get).matchArgs params args (.ofParams tparams)
  tparams.foldlM fillDefault s

end Build
end SemanticCore
