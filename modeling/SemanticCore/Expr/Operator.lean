import SemanticCore.Conversion

/-!
# Operators

The operands of `&&`, `||` and `!` are converted to `bool`.  The operands of a comparison and of an
arithmetic operator are taken by value and brought to their common type; operands without a common
type can still be compared if their types are the same.

An operand whose type depends on template parameters is left as it is.  The result of a comparison
is `bool` in any case, and that of a dependent arithmetic operation a placeholder.
-/

set_option autoImplicit false
namespace SemanticCore
namespace Build

/-- Resolve `lhs && rhs` or `lhs || rhs`. -/
def logical (op : BinaryOp) (lhs rhs : ExprHandle) : Attempt SemanticError ExprHandle := do
  let lhs ← convertToBool lhs
  let rhs ← convertToBool rhs
  binary op .bool lhs rhs

/-- Resolve `!operand`. -/
def logicalNot (operand : ExprHandle) : Attempt SemanticError ExprHandle := do
  let operand ← convertToBool operand
  negation .bool operand

/-- Bring both operands to a type. -/
def convertBoth (lhs rhs : ExprHandle) (t : TypeHandle) :
    Attempt SemanticError (ExprHandle × ExprHandle) := do
  let lhs ← convert lhs t
  let rhs ← convert rhs t
  return (lhs, rhs)

/-- One of the operands has a dependent type. -/
def eitherDependent (lhs rhs : ExprHandle) : Build Bool := do
  let g ← get
  return g.isTypeDependent lhs || g.isTypeDependent rhs

/-- The error that the operands have no common type. -/
def noCommonType (lhs rhs : TypeHandle) : SemanticError :=
  .type (.noConversion rhs lhs)

/-- Resolve an equality or relational comparison. -/
def comparison (op : BinaryOp) (lhs rhs : ExprHandle) : Attempt SemanticError ExprHandle := do
  if !op.isComparison then
    throw (.fault (.notAComparison op))
  let lhs ← valueOf lhs
  let rhs ← valueOf rhs
  if ← eitherDependent lhs rhs then
    binary op .bool lhs rhs
  else
    let l := (← get).exprType lhs
    let r := (← get).exprType rhs
    match ← commonType? l r with
    | some common =>
      let (lhs, rhs) ← convertBoth lhs rhs common
      binary op .bool lhs rhs
    | none => if l = r then binary op .bool lhs rhs else throw (noCommonType l r)

/-- Resolve an arithmetic operation. -/
def arithmetic (op : BinaryOp) (lhs rhs : ExprHandle) : Attempt SemanticError ExprHandle := do
  if !op.isArithmetic then
    throw (.fault (.notArithmetic op))
  let lhs ← valueOf lhs
  let rhs ← valueOf rhs
  if ← eitherDependent lhs rhs then
    let t ← autoType
    binary op t lhs rhs
  else
    let l := (← get).exprType lhs
    let r := (← get).exprType rhs
    match ← commonType? l r with
    | some common =>
      let (lhs, rhs) ← convertBoth lhs rhs common
      binary op common lhs rhs
    | none => throw (noCommonType l r)

end Build
end SemanticCore
