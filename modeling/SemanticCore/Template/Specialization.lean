import SemanticCore.Decl.Form
import SemanticCore.Error.Template
import SemanticCore.Name
import SemanticCore.Template.Substitution

/-!
# Specializing a function template

A function template is specialized to template arguments by substituting them into its parameter
types and its return type.  The specialization is a new function, named by the template applied to
the arguments, with new parameters of its own; it stands where the template stands.
-/

set_option autoImplicit false
namespace SemanticCore

/-- The parameters and the return type of the function that a template parameterizes. -/
def Graph.functionPattern? (g : Graph) (template : DeclHandle) :
    Option (List DeclHandle × TypeHandle) :=
  match (g.decl template).form with
  | .template _ pattern _ =>
    match (g.decl pattern).form with
    | .function t params _ => (g.functionRet? t).map fun ret => (params, ret)
    | _ => none
  | _ => none

namespace Build

/-- A parameter of the specialization, for a parameter of the pattern. -/
def specializeParam (s : Substitution) (param : DeclHandle) :
    Attempt SpecializationError DeclHandle := do
  match (← get).objectParamType? param with
  | none => throw (.build (.malformed .patternParameterNotObject))
  | some t =>
    let n := ((← get).decl param).name
    let t ← substitute s t
    objectParam n t

/-- The specialization of a function template to the arguments of a substitution. -/
def specialize (template : DeclHandle) (s : Substitution) :
    Attempt SpecializationError DeclHandle := do
  let some (params, ret) := (← get).functionPattern? template
    | throw (.notAFunctionTemplate template)
  let args ← match s.args with
    | .ok args => pure args
    | .error param => throw (.missingArgument param)
  let n ← (templateName template args).adapt .build
  let params ← params.mapM (specializeParam s)
  let ret ← substitute s ret
  let spec ← (functionDecl n params ret).adapt .build
  setContexts params spec
  match ((← get).decl template).context with
  | some context => setContext spec context
  | none => pure ()
  return spec

end Build
end SemanticCore
