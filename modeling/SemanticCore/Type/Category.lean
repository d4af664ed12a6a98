import SemanticCore.Graph.Build

/-!
# Categories of types, and taking types apart

The rules of the language ask what a type is at its top level: a reference, an arithmetic type, a
class, and so on.  `Graph.nonReference` strips one reference and `Graph.unqualified` the top-level
qualifiers; together they give the type of the value that an expression stands for
(`Graph.valueType`).

The second part asks what a declaration declares.
-/

set_option autoImplicit false
namespace SemanticCore

namespace TypeForm

def isVoid : TypeForm → Bool
  | void => true
  | _ => false

def isBool : TypeForm → Bool
  | bool => true
  | _ => false

def isInt : TypeForm → Bool
  | int _ _ => true
  | _ => false

def isFloat : TypeForm → Bool
  | float => true
  | _ => false

/-- `bool` or an integer type. -/
def isIntegral (f : TypeForm) : Bool :=
  f.isBool || f.isInt

/-- `bool`, an integer type or `float`. -/
def isArithmetic (f : TypeForm) : Bool :=
  f.isIntegral || f.isFloat

def isFunction : TypeForm → Bool
  | function _ _ => true
  | _ => false

def isPointer : TypeForm → Bool
  | pointer _ => true
  | _ => false

/-- An arithmetic type or a pointer. -/
def isScalar (f : TypeForm) : Bool :=
  f.isArithmetic || f.isPointer

def isReference : TypeForm → Bool
  | reference _ => true
  | _ => false

def isSequence : TypeForm → Bool
  | sequence _ => true
  | _ => false

def isClass : TypeForm → Bool
  | ofClass _ => true
  | _ => false

def isQualified : TypeForm → Bool
  | qualified _ _ => true
  | _ => false

end TypeForm

namespace Graph

variable (g : Graph)

/-! ## Taking types apart -/

/-- The type without one reference. -/
def nonReference (t : TypeHandle) : TypeHandle :=
  match g.type t with
  | .reference target => target
  | _ => t

/-- The type without its top-level qualifiers. -/
def unqualified (t : TypeHandle) : TypeHandle :=
  match g.type t with
  | .qualified base _ => base
  | _ => t

/-- The top-level qualifiers of a type. -/
def quals (t : TypeHandle) : Qualifiers :=
  match g.type t with
  | .qualified _ quals => quals
  | _ => .none

/-- The type without one reference and then without top-level qualifiers. -/
def valueType (t : TypeHandle) : TypeHandle :=
  g.unqualified (g.nonReference t)

/-- The parameter types of a function type. -/
def functionParams? (t : TypeHandle) : Option (List TypeHandle) :=
  match g.type t with
  | .function params _ => some params
  | _ => none

/-- The return type of a function type. -/
def functionRet? (t : TypeHandle) : Option TypeHandle :=
  match g.type t with
  | .function _ ret => some ret
  | _ => none

/-- A reference type. -/
def isReference (t : TypeHandle) : Bool :=
  (g.type t).isReference

/-- A class type, whatever its qualifiers. -/
def isClass (t : TypeHandle) : Bool :=
  (g.type (g.unqualified t)).isClass

/-- What the type stands for is known only once a template is instantiated. -/
def isDependent (t : TypeHandle) : Bool :=
  (g.typeFlags t).isDependent

/-- The type of the expression is dependent. -/
def isTypeDependent (e : ExprHandle) : Bool :=
  g.isDependent (g.exprType e)

/-! ## What a declaration declares -/

/-- The type of the entity that a declaration introduces, if it has one. -/
def declaredType? (d : DeclHandle) : Option TypeHandle :=
  match (g.decl d).form with
  | .var t _ | .function t _ _ | .objectParam t | .valueParam t => some t
  | _ => none

def isFunctionDecl (d : DeclHandle) : Bool :=
  match (g.decl d).form with
  | .function _ _ _ => true
  | _ => false

def isClassDecl (d : DeclHandle) : Bool :=
  match (g.decl d).form with
  | .ofClass _ => true
  | _ => false

def isTemplateDecl (d : DeclHandle) : Bool :=
  match (g.decl d).form with
  | .template _ _ _ => true
  | _ => false

def isConceptDecl (d : DeclHandle) : Bool :=
  match (g.decl d).form with
  | .concept _ _ => true
  | _ => false

def isTypeParamDecl (d : DeclHandle) : Bool :=
  match (g.decl d).form with
  | .typeParam _ => true
  | _ => false

/-- The type of a function parameter. -/
def objectParamType? (d : DeclHandle) : Option TypeHandle :=
  match (g.decl d).form with
  | .objectParam t => some t
  | _ => none

/-- The constraint of a template that has one. -/
def templateConstraint? (d : DeclHandle) : Option ExprHandle :=
  match (g.decl d).form with
  | .template _ _ constraint => constraint
  | _ => none

end Graph
end SemanticCore
