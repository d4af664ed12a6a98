import SemanticCore.Conversion

/-!
# Initialization

An object is initialized by the first rule that fits its type and the initializer that was
written.  Each rule ends in an initializer node, in an error for a broken rule of the language, or
in an error for a construct that is not supported.

Which rule applies depends on types alone: nothing here looks at the context.
-/

set_option autoImplicit false
namespace SemanticCore

/-- An initializer as it was written. -/
inductive InitSyntax where
  /-- `T x = e;` -/
  | equal (e : ExprHandle)
  /-- `T x(es);` -/
  | paren (es : List ExprHandle)
  /-- `T x` followed by expressions in braces. -/
  | brace (es : List ExprHandle)
deriving DecidableEq, Inhabited

namespace Graph

variable (g : Graph)

/-- The types are the same, up to top-level qualifiers. -/
def referenceRelated (a b : TypeHandle) : Bool :=
  g.unqualified a = g.unqualified b

/-- A reference to `a` can be bound to an object of type `b`. -/
def referenceCompatible (a b : TypeHandle) : Bool :=
  g.referenceRelated a b && (g.quals a).covers (g.quals b)

end Graph

namespace Build

/-! ## Without an expression -/

/-- Initialize with zero. -/
def initZero (t : TypeHandle) : Attempt SemanticError InitHandle := do
  if ((← get).type t).isFunction then
    throw (.type (.cannotZeroInitialize t))
  if (← get).isReference t then
    return ← init .trivial t
  if (← get).isClass t then
    throw (.unsupported .classInitialization)
  let base := (← get).unqualified t
  if ((← get).type base).isScalar then
    let zero ←
      if ((← get).type base).isBool then boolLiteral false else integerLiteral base 0
    init (.copy zero) t
  else
    throw (.type (.cannotZeroInitialize t))

/-- Initialize an object that is declared without an initializer. -/
def initDefault (t : TypeHandle) : Attempt SemanticError InitHandle := do
  if (← get).isReference t then
    throw (.type (.referenceDefaultInit t))
  init .trivial t

/-- Initialize an object that is declared with empty parentheses. -/
def initValue (t : TypeHandle) : Attempt SemanticError InitHandle := do
  if (← get).isReference t then
    throw (.type (.referenceValueInit t))
  if (← get).isClass t then
    throw (.unsupported .classInitialization)
  initZero t

/-! ## From an expression -/

/-- Bind a reference.  Only an object of a compatible type can be bound, and this is asked of
dependent types as well. -/
def initReference (t : TypeHandle) (e : ExprHandle) : Attempt SemanticError InitHandle := do
  if !(← get).isReference t then
    throw (.fault (.notAReference t))
  let target := (← get).nonReference t
  let source := (← get).exprType e
  if (← get).isReference source &&
      (← get).referenceCompatible target ((← get).nonReference source) then
    init (.bind e) t
  else
    throw (.type (.referenceBinding t e))

/-- Copy an expression, the choice of its conversion being left to the instantiation. -/
def copyDeferred (t : TypeHandle) (e : ExprHandle) : Build InitHandle := do
  init (.copy (← deferConversion e t)) t

/-- Convert an expression and copy it into an object whose type is neither a class nor dependent. -/
def convertAndCopy (t : TypeHandle) (e : ExprHandle) : Attempt SemanticError InitHandle := do
  let source := (← get).nonReference ((← get).exprType e)
  if (← get).isDependent source then
    copyDeferred t e
  else if (← get).isClass source then
    throw (.unsupported .userDefinedConversion)
  else
    let converted ← convert e t
    init (.copy converted) t

/-- Initialize as in `T x = e;`. -/
def initCopy (t : TypeHandle) (e : ExprHandle) : Attempt SemanticError InitHandle := do
  if (← get).isReference t then
    initReference t e
  else if (← get).isDependent t then
    copyDeferred t e
  else if ((← get).type t).isSequence then
    throw (.unsupported .stringInitialization)
  else if (← get).isClass t then
    throw (.unsupported .constructorSearch)
  else
    convertAndCopy t e

/-- Initialize as in `T x(es);`. -/
def initDirect (t : TypeHandle) (es : List ExprHandle) : Attempt SemanticError InitHandle := do
  if ((← get).type t).isSequence then
    throw (.type (.invalidArrayInitialization t))
  match es with
  | [] => initValue t
  | e :: rest =>
    if !rest.isEmpty && !(← get).isClass t then
      throw (.type (.scalarFromMultipleArguments t))
    else if (← get).isReference t then
      initReference t e
    else if (← get).isDependent t then
      copyDeferred t e
    else if (← get).isClass t then
      throw (.unsupported .constructorSearch)
    else
      convertAndCopy t e

/-- Initialization from a list in braces is not supported. -/
def initList (_ : TypeHandle) (_ : List ExprHandle) : Attempt SemanticError InitHandle :=
  throw (.unsupported .listInitialization)

/-- Initialization of an aggregate is not supported. -/
def initAggregate (_ : TypeHandle) (_ : List ExprHandle) : Attempt SemanticError InitHandle :=
  throw (.unsupported .aggregateInitialization)

/-- Initialize an object from an initializer as it was written. -/
def initFrom (t : TypeHandle) : InitSyntax → Attempt SemanticError InitHandle
  | .equal e => initCopy t e
  | .paren es => initDirect t es
  | .brace es => initList t es

end Build
end SemanticCore
