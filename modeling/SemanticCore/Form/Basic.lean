import SemanticCore.Handle
import SemanticCore.Qualifiers
import SemanticCore.Symbol

/-!
# Forms

The form of a node says which construct it is and which nodes it is built from.  There is one
closed type of forms per category of nodes, and a form mentions other nodes by handle only, so a
form is a small, flat value.

Expressions and initializers also have a type, and declarations a name and an enclosing
declaration; those come in the records `Expr`, `Init` and `Decl` around the form.
-/

set_option autoImplicit false
namespace SemanticCore

/-- An argument of a template or a concept. -/
inductive Term where
  | type (t : TypeHandle)
  | expr (e : ExprHandle)
  | decl (d : DeclHandle)
deriving DecidableEq, Inhabited

/-- Placeholders are told apart by numbers of fixed width, which are read as natural numbers. -/
instance numberToNat : CoeOut UInt32 Nat := ⟨UInt32.toNat⟩

/-! ## Names -/

/-- The form of a name.  The name of a destructor has no form: it is not supported, so asking for
one fails (`Feature.destructorName`). -/
inductive NameForm where
  /-- An identifier. -/
  | simple (s : Symbol)
  /-- A name that is not resolved yet; each number is a different name. -/
  | placeholder (number : UInt32)
  /-- A template applied to arguments. -/
  | template (decl : DeclHandle) (args : List Term)
  /-- A concept applied to arguments. -/
  | concept (decl : DeclHandle) (args : List Term)
  /-- A name looked up in a scope, `scope::name`. -/
  | qualified (scope : DeclHandle) (name : NameHandle)
  /-- The name of the global namespace. -/
  | global
deriving DecidableEq, Inhabited

/-! ## Types -/

/-- The form of a type.  An array of known length, `decltype` of an expression, a union and an
enumeration have no form.  They are known and not supported (`Feature.arrayType`, `decltypeType`,
`unionType`, `enumType`): whoever asks for one is refused, so no graph has a node of such a type. -/
inductive TypeForm where
  | void
  | bool
  | int (signed : Bool) (precision : UInt16)
  | float
  /-- `auto`; each number is a different type. -/
  | auto (number : UInt32)
  /-- `decltype(auto)`; each number is a different type. -/
  | declauto (number : UInt32)
  | function (params : List TypeHandle) (ret : TypeHandle)
  /-- A type with qualifiers at its top level. -/
  | qualified (base : TypeHandle) (quals : Qualifiers)
  | pointer (target : TypeHandle)
  | reference (target : TypeHandle)
  /-- `T[]`. -/
  | sequence (element : TypeHandle)
  | ofClass (decl : DeclHandle)
  /-- The type named by a template type parameter. -/
  | typename (decl : DeclHandle)
  /-- A stand-in for a declaration, made while constraints are checked. -/
  | archetype (decl : DeclHandle)
deriving DecidableEq, Inhabited

/-- The types that the form of a type mentions directly. -/
def TypeForm.components : TypeForm → List TypeHandle
  | function params ret => params ++ [ret]
  | qualified base _ => [base]
  | pointer t | reference t | sequence t => [t]
  | _ => []

/-! ## Expressions -/

/-- The binary operators. -/
inductive BinaryOp where
  | and
  | or
  | eq
  | ne
  | lt
  | gt
  | le
  | ge
  | add
  | sub
  | mul
  | div
  | rem
deriving DecidableEq, Inhabited

namespace BinaryOp

/-- All binary operators. -/
def all : List BinaryOp :=
  [and, or, eq, ne, lt, gt, le, ge, add, sub, mul, div, rem]

/-- How the operator is written. -/
def symbol : BinaryOp → String
  | and => "&&"
  | or => "||"
  | eq => "=="
  | ne => "!="
  | lt => "<"
  | gt => ">"
  | le => "<="
  | ge => ">="
  | add => "+"
  | sub => "-"
  | mul => "*"
  | div => "/"
  | rem => "%"

/-- The operator written in the given way. -/
def ofSymbol? (s : String) : Option BinaryOp :=
  all.find? fun op => op.symbol == s

/-- `&&` and `||`. -/
def isLogical : BinaryOp → Bool
  | and | or => true
  | _ => false

/-- The equality and relational operators. -/
def isComparison : BinaryOp → Bool
  | eq | ne | lt | gt | le | ge => true
  | _ => false

/-- `+`, `-`, `*`, `/` and `%`. -/
def isArithmetic : BinaryOp → Bool
  | add | sub | mul | div | rem => true
  | _ => false

/-- Every operator belongs to exactly one of the three groups. -/
theorem isArithmetic_eq (op : BinaryOp) :
    op.isArithmetic = (!op.isLogical && !op.isComparison) := by
  cases op <;> rfl

end BinaryOp

/-- The implicit conversions that an operand can go through. -/
inductive ConversionKind where
  /-- From an object to its value. -/
  | value
  /-- Adding qualifiers below a pointer. -/
  | qualification
  /-- From an arithmetic type or a pointer to `bool`. -/
  | boolean
  /-- From `bool` or an integer to an integer of another width or sign. -/
  | integer
  /-- Between integers and floating point. -/
  | float
  /-- A conversion that is chosen when the template is instantiated. -/
  | dependent
  /-- Passing an argument through `...`. -/
  | ellipsis
deriving DecidableEq, Inhabited

/-- The form of an expression. -/
inductive ExprForm where
  | boolean (value : Bool)
  | integer (value : Int)
  /-- A variable, parameter or function, by name. -/
  | reference (decl : DeclHandle)
  /-- A template, by name. -/
  | templateRef (decl : DeclHandle)
  /-- A concept applied to arguments, `C<args>`. -/
  | check (concept : DeclHandle) (args : List Term)
  | binary (op : BinaryOp) (lhs rhs : ExprHandle)
  | not (operand : ExprHandle)
  | call (callee : ExprHandle) (args : List ExprHandle)
  | conversion (kind : ConversionKind) (source : ExprHandle)
  /-- A value made up from a declaration while constraints are checked. -/
  | synthetic (decl : DeclHandle)
  /-- `requires (params) { requirements }`. -/
  | requires (tparams params : List DeclHandle) (reqs : List ReqHandle)
deriving DecidableEq, Inhabited

/-- An expression and its static type. -/
structure Expr where
  form : ExprForm
  type : TypeHandle
deriving DecidableEq, Inhabited

/-! ## Declarations -/

/-- The form of a declaration. -/
inductive DeclForm where
  | ofNamespace
  | var (type : TypeHandle) (init : Option InitHandle)
  | function (type : TypeHandle) (params : List DeclHandle) (defn : Option DefHandle)
  | ofClass (defn : Option DefHandle)
  | template (params : List DeclHandle) (pattern : DeclHandle) (constraint : Option ExprHandle)
  | concept (params : List DeclHandle) (defn : Option DefHandle)
  /-- A parameter of a function. -/
  | objectParam (type : TypeHandle)
  /-- A template parameter that stands for a value. -/
  | valueParam (type : TypeHandle)
  /-- A template parameter that stands for a type. -/
  | typeParam (default : Option TypeHandle)
deriving DecidableEq, Inhabited

/-- A declaration: its name, the declaration it was placed in, and what it declares. -/
structure Decl where
  name : NameHandle
  /-- The enclosing declaration, once the declaration has been placed. -/
  context : Option DeclHandle
  form : DeclForm
deriving DecidableEq, Inhabited

/-- The form of a definition. -/
inductive DefForm where
  | deleted
  | defaulted
  | expr (e : ExprHandle)
  | function (body : StmtHandle)
  | ofClass (members : List DeclHandle)
  | concept (reqs : List ReqHandle)
deriving DecidableEq, Inhabited

/-! ## Statements and initializers -/

/-- The form of a statement. -/
inductive StmtForm where
  | compound (stmts : List StmtHandle)
  | ret (e : ExprHandle)
  | expr (e : ExprHandle)
  | decl (d : DeclHandle)
deriving DecidableEq, Inhabited

/-- The form of an initializer. -/
inductive InitForm where
  /-- Nothing is done. -/
  | trivial
  | copy (e : ExprHandle)
  /-- A reference is bound. -/
  | bind (e : ExprHandle)
  /-- A constructor is called. -/
  | direct (ctor : DeclHandle) (args : List ExprHandle)
  | aggregate (elements : List ExprHandle)
deriving DecidableEq, Inhabited

/-- An initializer and the type of the object it initializes. -/
structure Init where
  form : InitForm
  type : TypeHandle
deriving DecidableEq, Inhabited

/-! ## Constraints and requirements -/

/-- The form of a constraint in normal form. -/
inductive ConsForm where
  | concept (decl : DeclHandle) (args : List Term)
  /-- An expression that is neither `&&`, `||` nor a concept check. -/
  | predicate (e : ExprHandle)
  | conjunction (lhs rhs : ConsHandle)
  | disjunction (lhs rhs : ConsHandle)
deriving DecidableEq, Inhabited

/-- The form of a requirement inside a requires-expression. -/
inductive ReqForm where
  /-- The expression must be valid. -/
  | basic (e : ExprHandle)
  /-- The type must be valid. -/
  | type (t : TypeHandle)
  /-- The expression must be valid and convert to the type. -/
  | conversion (e : ExprHandle) (t : TypeHandle)
deriving DecidableEq, Inhabited

/-- The expression that a requirement is about. -/
def ReqForm.expr? : ReqForm → Option ExprHandle
  | basic e | conversion e _ => some e
  | type _ => none

end SemanticCore
