import SemanticCore.Error.Build
import SemanticCore.Type.Category

/-!
# Constructing types

The constructors of types keep every type in normal form: qualifiers are merged and never nested,
an empty qualifier set leaves the type as it is, and references carry no qualifiers of their own
(`Build.qualifiedType`).  Each `auto` and `decltype(auto)` is a new type; all other types are the
same whenever they are built from the same parts.
-/

set_option autoImplicit false
namespace SemanticCore
namespace Build

/-! ## Integers and placeholders -/

/-- An integer type. -/
def intTypeOf (signed : Bool) (precision : UInt16) : Build TypeHandle :=
  type (.int signed precision)

/-- `int`, of the width that the graph is configured for. -/
def intType : Build TypeHandle := do
  intTypeOf true (← get).intPrecision

/-- `unsigned int`. -/
def uintType : Build TypeHandle := do
  intTypeOf false (← get).intPrecision

/-- A new `auto`. -/
def autoType : Build TypeHandle := do
  let number ← fresh
  type (.auto number)

/-- A new `decltype(auto)`. -/
def declautoType : Build TypeHandle := do
  let number ← fresh
  type (.declauto number)

/-! ## Functions -/

/-- The function type with the given parameter types. -/
def functionTypeOf (params : List TypeHandle) (ret : TypeHandle) : Build TypeHandle :=
  type (.function params ret)

/-- The declared types of function parameters. -/
def objectParamTypes (params : List DeclHandle) : Attempt BuildError (List TypeHandle) := do
  let g ← get
  params.mapM fun p =>
    match g.objectParamType? p with
    | some t => pure t
    | none => throw (.malformed .parameterNotObject)

/-- The type of a function with the given parameters. -/
def functionType (params : List DeclHandle) (ret : TypeHandle) :
    Attempt BuildError TypeHandle := do
  functionTypeOf (← objectParamTypes params) ret

/-! ## Qualified types -/

/-- Add qualifiers to a type.  Qualifiers of a qualified type are merged, so no qualified type
wraps another; where nothing is added, and on a reference, the type stays as it is. -/
def qualifiedType (t : TypeHandle) (quals : Qualifiers) : Build TypeHandle := do
  match (← get).type t with
  | .reference _ => pure t
  | .qualified base own =>
    if own.covers quals then pure t else type (.qualified base (own.union quals))
  | _ => if quals.isNone then pure t else type (.qualified t quals)

/-! ## Compound and declared types -/

/-- A pointer to a type. -/
def pointerType (t : TypeHandle) : Build TypeHandle :=
  type (.pointer t)

/-- A reference to a type. -/
def referenceType (t : TypeHandle) : Build TypeHandle :=
  type (.reference t)

/-- The type `T[]`. -/
def sequenceType (t : TypeHandle) : Build TypeHandle :=
  type (.sequence t)

/-- The type of a class. -/
def classType (decl : DeclHandle) : Attempt BuildError TypeHandle := do
  if (← get).isClassDecl decl then
    type (.ofClass decl)
  else
    throw (.malformed .classTypeOfNonClass)

/-- The type that a template type parameter stands for. -/
def typenameType (decl : DeclHandle) : Attempt BuildError TypeHandle := do
  if (← get).isTypeParamDecl decl then
    type (.typename decl)
  else
    throw (.malformed .typenameOfNonTypeParameter)

/-- The archetype of a declaration. -/
def archetypeType (decl : DeclHandle) : Build TypeHandle :=
  type (.archetype decl)

/-! ## Types that are not supported -/

/-- The type of an expression is not supported. -/
def decltypeType (_ : ExprHandle) : Attempt BuildError TypeHandle :=
  throw (.unsupported .decltypeType)

/-- Arrays of known length are not supported. -/
def arrayType (_ : TypeHandle) (_ : ExprHandle) : Attempt BuildError TypeHandle :=
  throw (.unsupported .arrayType)

/-- Unions are not supported. -/
def unionType (_ : DeclHandle) : Attempt BuildError TypeHandle :=
  throw (.unsupported .unionType)

/-- Enumerations are not supported. -/
def enumType (_ : DeclHandle) : Attempt BuildError TypeHandle :=
  throw (.unsupported .enumType)

end Build
end SemanticCore
