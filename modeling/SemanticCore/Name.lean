import SemanticCore.Error.Build
import SemanticCore.Form.Text
import SemanticCore.Type.Category

/-!
# Names

The constructors of names.  Names are interned, so the same identifier, and the same template with
the same arguments, is always the same name.
-/

set_option autoImplicit false
namespace SemanticCore
namespace Build

/-- The name of an identifier. -/
def identifier (s : String) : Build NameHandle := do
  let symbol ← symbol s
  name (.simple symbol)

/-- A name that is different from every other. -/
def placeholderName : Build NameHandle := do
  let number ← fresh
  name (.placeholder number)

/-- Destructor names are not supported. -/
def destructorName (_ : TypeHandle) : Attempt BuildError NameHandle :=
  throw (.unsupported .destructorName)

/-- The name of a template applied to arguments. -/
def templateName (decl : DeclHandle) (args : List Term) : Attempt BuildError NameHandle := do
  if (← get).isTemplateDecl decl then
    name (.template decl args)
  else
    throw (.malformed .templateNameOfNonTemplate)

/-- The name of a concept applied to arguments. -/
def conceptName (decl : DeclHandle) (args : List Term) : Attempt BuildError NameHandle := do
  if (← get).isConceptDecl decl then
    name (.concept decl args)
  else
    throw (.malformed .conceptNameOfNonConcept)

/-- The name `scope::n`. -/
def qualifiedName (scope : DeclHandle) (n : NameHandle) : Build NameHandle :=
  name (.qualified scope n)

end Build

/-- How a name is written in a message: an identifier by its spelling, any other name by its
structure. -/
def Graph.spelling (g : Graph) (n : NameHandle) : String :=
  match g.name n with
  | .simple s => (SymbolTable.spelling? g.symbols s).getD ""
  | form => form.text

end SemanticCore
