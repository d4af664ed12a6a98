import SemanticCore.Error.Template
import SemanticCore.Diagnostic.Basic

/-!
# Semantic errors

Three sorts of error leave the semantic core.  A `TypeError` is a rule of the language that the
program being analysed breaks; it is the only sort that can be recovered from, since the program
may have another reading.  A `Fault` is a state that the front end should not get into, and an
unsupported feature ends the analysis of the construct.

Every error has a message, a code, and a diagnostic that reports it at a place in the source.
-/

set_option autoImplicit false
namespace SemanticCore

/-- A rule of the language that is broken. -/
inductive TypeError where
  | notCallable (callee : ExprHandle)
  | argumentCount (expected found : Nat)
  | scalarFromMultipleArguments (type : TypeHandle)
  | invalidArrayInitialization (type : TypeHandle)
  | referenceDefaultInit (type : TypeHandle)
  | referenceValueInit (type : TypeHandle)
  | cannotZeroInitialize (type : TypeHandle)
  | referenceBinding (target : TypeHandle) (expr : ExprHandle)
  | noConversion (source target : TypeHandle)
  | noMatchingCall (callee : ExprHandle) (cause : TemplateError)
  | undeclaredName (spelling : String)
  | notAValue (decl : DeclHandle)
  /-- The declaration given is the earlier one. -/
  | redefinition (decl : DeclHandle)
  /-- The enclosing constraints do not imply those of the template that is called. -/
  | uncoveredCall (template : DeclHandle)
deriving DecidableEq, Inhabited

namespace TypeError

/-- The error in words. -/
def message : TypeError → String
  | notCallable _ => "expression is not callable"
  | argumentCount expected found =>
    "wrong number of arguments: expected " ++ expected.repr ++ ", found " ++ found.repr
  | scalarFromMultipleArguments _ => "scalar initialized from multiple arguments"
  | invalidArrayInitialization _ => "invalid array initialization"
  | referenceDefaultInit _ => "default initialization of reference"
  | referenceValueInit _ => "value initialization of reference"
  | cannotZeroInitialize _ => "type cannot be zero initialized"
  | referenceBinding _ _ => "reference cannot bind to initializer"
  | noConversion source target => "no conversion from " ++ source.text ++ " to " ++ target.text
  | noMatchingCall _ cause => "no matching call: " ++ cause.message
  | undeclaredName spelling => "use of undeclared name `" ++ spelling ++ "`"
  | notAValue _ => "name does not denote a value"
  | redefinition decl => "redefinition of " ++ decl.text
  | uncoveredCall _ => "call to function template not covered by constraints"

/-- The code of the error. -/
def code : TypeError → DiagnosticCode
  | notCallable _ => .e2001
  | argumentCount _ _ => .e2002
  | scalarFromMultipleArguments _ => .e2003
  | invalidArrayInitialization _ => .e2004
  | referenceDefaultInit _ | referenceValueInit _ => .e2005
  | cannotZeroInitialize _ => .e2006
  | referenceBinding _ _ => .e2007
  | noConversion _ _ => .e2008
  | noMatchingCall _ (.deduction _) => .e2013
  | noMatchingCall _ (.specialization _) => .e2014
  | undeclaredName _ => .e2010
  | notAValue _ => .e2011
  | redefinition _ => .e2012
  | uncoveredCall _ => .e2015

end TypeError

/-- A state that the front end should not get into. -/
inductive Fault where
  | malformed (cause : Malformed)
  /-- A reference was to be initialized, and the target is no reference type. -/
  | notAReference (target : TypeHandle)
  /-- The callee of a dependent call is neither a template nor a function. -/
  | dependentCallee (callee : ExprForm)
  | notATemplate (decl : DeclHandle)
  | patternNotAFunction (pattern : DeclHandle)
  | specializationNotAFunction (spec : DeclHandle)
  | notAComparison (op : BinaryOp)
  | notArithmetic (op : BinaryOp)
  /-- A function body was given to a declaration that is no function. -/
  | definitionOfNonFunction (decl : DeclHandle)
deriving DecidableEq, Inhabited

namespace Fault

/-- What was being done. -/
def topic : Fault → String
  | malformed _ => "malformed term"
  | notAReference _ => "reference initialization"
  | dependentCallee _ => "dependent callee"
  | notATemplate _ => "template reference"
  | patternNotAFunction _ => "template call"
  | specializationNotAFunction _ => "specialization"
  | notAComparison _ => "comparison operator"
  | notArithmetic _ => "arithmetic operator"
  | definitionOfNonFunction _ => "function definition"

/-- What was met. -/
def detail : Fault → String
  | malformed cause => cause.description
  | notAReference target => "target " ++ target.text ++ " is not a reference type"
  | dependentCallee callee => callee.text
  | notATemplate decl => decl.text ++ " is not a template"
  | patternNotAFunction pattern => "pattern " ++ pattern.text ++ " is not a function"
  | specializationNotAFunction spec => spec.text ++ " is not a function"
  | notAComparison op => op.symbol
  | notArithmetic op => op.symbol
  | definitionOfNonFunction decl => decl.text ++ " is not a function"

end Fault

/-- Why a construct was not resolved. -/
inductive SemanticError where
  | unsupported (feature : Feature)
  | fault (cause : Fault)
  | type (cause : TypeError)
deriving DecidableEq, Inhabited

namespace SemanticError

/-- Failing to build a node, seen as a semantic error. -/
def ofBuild : BuildError → SemanticError
  | .unsupported feature => unsupported feature
  | .malformed cause => fault (.malformed cause)
  | .alreadyDefined decl => type (.redefinition decl)

/-- Only a broken rule of the language can be recovered from. -/
def isRecoverable : SemanticError → Bool
  | type _ => true
  | _ => false

/-- The error in words. -/
def message : SemanticError → String
  | unsupported feature => feature.message
  | fault cause => "unhandled case: " ++ cause.topic ++ ": " ++ cause.detail
  | type cause => cause.message

/-- The code of the error. -/
def code : SemanticError → DiagnosticCode
  | unsupported _ => .e9001
  | fault _ => .e9003
  | type cause => cause.code

/-- The report of the error at a place in the source. -/
def toDiagnostic (e : SemanticError) (span : Span) : Diagnostic :=
  let report := Diagnostic.ofMessage .error e.code e.message
  match e with
  | unsupported _ =>
    (report.withPrimary span "not supported yet").withNote
      "this construct is recognized but not handled by the front end"
  | fault _ =>
    (report.withPrimary span "while resolving this").withNote "this is a bug in the front end"
  | type (.scalarFromMultipleArguments _) =>
    (report.withPrimary span "too many initializers").withSuggestion
      "initialize a scalar from a single expression"
  | type (.undeclaredName _) => report.withPrimary span "not found in this scope"
  | type _ => report.withPrimary span "here"

end SemanticError
end SemanticCore
