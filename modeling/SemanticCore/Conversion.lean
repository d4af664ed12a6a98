import SemanticCore.Error.Semantic
import SemanticCore.Expr.Form

/-!
# Implicit conversions

A standard conversion takes an expression to the value it stands for and then makes at most one
further step: adding qualifiers below a pointer, or converting to `bool`, to an integer or to
floating point.  Each step is a conversion node, whose type is the type converted to.

The second part finds the common type of two arithmetic types, to which the operands of an
arithmetic operator or a comparison are converted.
-/

set_option autoImplicit false
namespace SemanticCore

/-! ## Single steps -/

/-- The kind of the one step that leads from a value of the type `source` to the unqualified type
`target`. -/
def Graph.conversionKind? (g : Graph) (source target : TypeHandle) : Option ConversionKind :=
  match g.type source, g.type target with
  | .pointer s, .pointer t =>
    if g.unqualified s = g.unqualified t ∧ (g.quals t).covers (g.quals s) then some .qualification
    else none
  | .bool, .bool | .int _ _, .bool | .float, .bool | .pointer _, .bool => some .boolean
  | .bool, .int _ _ | .int _ _, .int _ _ => some .integer
  | .bool, .float | .int _ _, .float | .float, .int _ _ => some .float
  | _, _ => none

namespace Build

/-- The value of an expression: an expression of reference type is converted to the type it refers
to, without qualifiers. -/
def valueOf (e : ExprHandle) : Build ExprHandle := do
  let t := (← get).exprType e
  if (← get).isReference t then
    conversion .value ((← get).valueType t) e
  else
    pure e

/-- Convert an expression to a type by a standard conversion. -/
def convert (e : ExprHandle) (target : TypeHandle) : Attempt SemanticError ExprHandle := do
  let e ← valueOf e
  let source := (← get).exprType e
  let target := (← get).unqualified target
  if source = target then
    return e
  match (← get).conversionKind? source target with
  | some kind => conversion kind target e
  | none => throw (.type (.noConversion source target))

/-- Leave the choice of a conversion to the instantiation of the template. -/
def deferConversion (e : ExprHandle) (target : TypeHandle) : Build ExprHandle :=
  conversion .dependent target e

/-- Convert an expression to `bool`, as a condition. -/
def convertToBool (e : ExprHandle) : Attempt SemanticError ExprHandle := do
  if (← get).isTypeDependent e then
    deferConversion e .bool
  else
    convert e .bool

/-! ## The common type of two arithmetic types -/

/-- The type in which values of an arithmetic type take part in arithmetic: `bool` takes part as
`int`. -/
def promote? (t : TypeHandle) : Build (Option TypeHandle) := do
  match (← get).type t with
  | .bool => return some (← intType)
  | .int _ _ | .float => return some t
  | _ => return none

/-- The common type of two arithmetic types.  `float` is above all integers; of two integer types
the wider one is chosen, and of two equally wide ones the unsigned. -/
def commonType? (lhs rhs : TypeHandle) : Build (Option TypeHandle) := do
  let some lhs ← promote? lhs | return none
  let some rhs ← promote? rhs | return none
  match (← get).type lhs, (← get).type rhs with
  | .float, _ | _, .float => return some .float
  | .int ls lp, .int rs rp =>
    let signed := if rp < lp then ls else if lp < rp then rs else ls && rs
    return some (← intTypeOf signed (max lp rp))
  | _, _ => return none

end Build
end SemanticCore
