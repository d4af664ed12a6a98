import SemanticCore.Type.Form

/-!
# Substitution

A substitution gives arguments to the parameters of a template.  It knows the parameters in their
order and the arguments found so far; an argument, once given, is never replaced.

`Build.substitute` puts the arguments into a type.  It rebuilds the type through the constructors,
so the result is in normal form again: qualifiers that meet are merged, and qualifiers on what has
become a reference disappear.
-/

set_option autoImplicit false
namespace SemanticCore

/-- Arguments for the parameters of a template. -/
structure Substitution where
  /-- The parameters, in their order. -/
  params : List DeclHandle
  /-- The arguments found so far. -/
  bindings : List (DeclHandle × Term)
deriving DecidableEq, Inhabited

namespace Substitution

/-- The substitution that gives no argument yet. -/
def ofParams (params : List DeclHandle) : Substitution :=
  ⟨params, []⟩

variable (s : Substitution)

/-- The argument of a parameter. -/
def get? (param : DeclHandle) : Option Term :=
  s.bindings.lookup param

/-- The argument of a parameter, if it is a type. -/
def type? (param : DeclHandle) : Option TypeHandle :=
  match s.get? param with
  | some (.type t) => some t
  | _ => none

/-- The parameter has an argument. -/
def isBound (param : DeclHandle) : Bool :=
  (s.get? param).isSome

/-- Give an argument to a parameter.  Giving the same argument again does nothing; giving another
one fails with the argument that is there. -/
def bind (param : DeclHandle) (arg : Term) : Except Term Substitution :=
  match s.get? param with
  | some old => if old = arg then .ok s else .error old
  | none => .ok { s with bindings := (param, arg) :: s.bindings }

/-- The first parameter without an argument. -/
def firstUnbound? : Option DeclHandle :=
  s.params.find? fun p => !s.isBound p

/-- Every parameter has an argument. -/
def isComplete : Bool :=
  s.firstUnbound?.isNone

/-- The arguments in the order of the parameters, or the first parameter without one. -/
def args : Except DeclHandle (List Term) :=
  s.params.mapM fun p =>
    match s.get? p with
    | some arg => .ok arg
    | none => .error p

end Substitution

/-- The type with every parameter that the substitution binds to a type replaced by that type.  A
type that mentions no parameter is returned as it is. -/
def Build.substitute (s : Substitution) (t : TypeHandle) : Build TypeHandle := do
  let part (x : TypeHandle) : Build TypeHandle := if _ : x < t then substitute s x else pure x
  if ((← get).typeFlags t).parameter then
    match (← get).type t with
    | .typename d => pure ((s.type? d).getD t)
    | .function params ret =>
      let params ← params.mapM part
      let ret ← part ret
      functionTypeOf params ret
    | .qualified base quals =>
      let base ← part base
      qualifiedType base quals
    | .pointer target =>
      let target ← part target
      pointerType target
    | .reference target =>
      let target ← part target
      referenceType target
    | .sequence element =>
      let element ← part element
      sequenceType element
    | _ => pure t
  else
    pure t
termination_by t.index
decreasing_by all_goals assumption

end SemanticCore
