import SemanticCore.Type.Form

/-!
# Constructing expressions

Every expression is given its static type when it is built.  Expressions are not interned: two
expressions of the same structure are two nodes, and `Graph.equivalent` compares them.
-/

set_option autoImplicit false
namespace SemanticCore
namespace Build

/-! ## Literals -/

/-- A literal of type `bool`. -/
def boolLiteral (value : Bool) : Build ExprHandle :=
  expr (.boolean value) .bool

/-- An integer literal of the given type. -/
def integerLiteral (t : TypeHandle) (value : Int) : Build ExprHandle :=
  expr (.integer value) t

/-- A literal of type `int`. -/
def intLiteral (value : Int) : Build ExprHandle := do
  integerLiteral (← intType) value

/-- A literal of type `unsigned int`. -/
def uintLiteral (value : Int) : Build ExprHandle := do
  integerLiteral (← uintType) value

/-! ## Naming declarations -/

/-- The expression that names a variable, parameter or function.  Its type is a reference to the
declared type. -/
def referenceTo (decl : DeclHandle) : Attempt BuildError ExprHandle := do
  match (← get).declaredType? decl with
  | some declared => expr (.reference decl) (← referenceType declared)
  | none => throw (.malformed .referenceWithoutType)

/-- The expression that names a template.  What it denotes is known only once the template is
specialized, so its type is a new placeholder. -/
def templateReference (decl : DeclHandle) : Attempt BuildError ExprHandle := do
  if (← get).isTemplateDecl decl then
    expr (.templateRef decl) (← autoType)
  else
    throw (.malformed .templateReferenceToNonTemplate)

/-- A concept applied to arguments, an expression of type `bool`. -/
def conceptCheck (concept : DeclHandle) (args : List Term) : Attempt BuildError ExprHandle := do
  if (← get).isConceptDecl concept then
    expr (.check concept args) .bool
  else
    throw (.malformed .checkOfNonConcept)

/-- A value of the declared type of a declaration, made up while constraints are checked. -/
def synthesizedValue (decl : DeclHandle) : Attempt BuildError ExprHandle := do
  match (← get).declaredType? decl with
  | some declared => expr (.synthetic decl) declared
  | none => throw (.malformed .valueWithoutType)

/-! ## Operators, calls and conversions -/

/-- A binary operation. -/
def binary (op : BinaryOp) (t : TypeHandle) (lhs rhs : ExprHandle) : Build ExprHandle :=
  expr (.binary op lhs rhs) t

/-- The negation `!operand`. -/
def negation (t : TypeHandle) (operand : ExprHandle) : Build ExprHandle :=
  expr (.not operand) t

/-- A call, which is recorded as it is: whether the callee can be called is not asked. -/
def call (t : TypeHandle) (callee : ExprHandle) (args : List ExprHandle) : Build ExprHandle :=
  expr (.call callee args) t

/-- A call of a function by its declaration. -/
def callTo (t : TypeHandle) (function : DeclHandle) (args : List ExprHandle) :
    Attempt BuildError ExprHandle := do
  let callee ← referenceTo function
  call t callee args

/-- An implicit conversion. -/
def conversion (kind : ConversionKind) (t : TypeHandle) (source : ExprHandle) : Build ExprHandle :=
  expr (.conversion kind source) t

/-- The expression `requires (params) { reqs }`, of type `bool`. -/
def requiresExpr (tparams params : List DeclHandle) (reqs : List ReqHandle) : Build ExprHandle :=
  expr (.requires tparams params reqs) .bool

end Build
end SemanticCore
