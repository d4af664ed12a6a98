import SemanticCore.Error.Build
import SemanticCore.Form.Text

/-!
# Why a template cannot be called

Calling a function template takes two steps, and each has errors of its own: the template
arguments are deduced from the arguments of the call, and the template is specialized to them.
-/

set_option autoImplicit false
namespace SemanticCore

/-- Why template arguments were not deduced. -/
inductive DeductionError where
  | argumentCount (expected found : Nat)
  /-- A parameter's type and its argument's type have different shapes. -/
  | mismatch (param arg : TypeHandle)
  /-- Two places of the call ask for different arguments. -/
  | conflict (param : DeclHandle) (first second : Term)
  /-- The call leaves a template parameter open, and it has no default. -/
  | undeduced (param : DeclHandle)
  | notAnObjectParameter (param : DeclHandle)
deriving DecidableEq, Inhabited

/-- The error in words. -/
def DeductionError.message : DeductionError → String
  | argumentCount expected found =>
    "expected " ++ expected.repr ++ " arguments, found " ++ found.repr
  | mismatch param arg =>
    "parameter type " ++ param.text ++ " does not match argument type " ++ arg.text
  | conflict param first second =>
    "conflicting arguments deduced for " ++ param.text ++ ": " ++ first.text ++ " and " ++
      second.text
  | undeduced param => "could not deduce an argument for " ++ param.text
  | notAnObjectParameter param => param.text ++ " is not an object parameter"

/-- Why a template was not specialized. -/
inductive SpecializationError where
  | notAFunctionTemplate (template : DeclHandle)
  | missingArgument (param : DeclHandle)
  | build (cause : BuildError)
deriving DecidableEq, Inhabited

/-- The error in words. -/
def SpecializationError.message : SpecializationError → String
  | notAFunctionTemplate template => template.text ++ " is not a function template"
  | missingArgument param => "no argument for template parameter " ++ param.text
  | build cause => cause.message

/-- Why a template cannot be called. -/
inductive TemplateError where
  | deduction (cause : DeductionError)
  | specialization (cause : SpecializationError)
deriving DecidableEq, Inhabited

/-- The error in words. -/
def TemplateError.message : TemplateError → String
  | deduction cause => "deduction failed: " ++ cause.message
  | specialization cause => "specialization failed: " ++ cause.message

end SemanticCore
