import SemanticCore.Type.Form

/-!
# Constructing declarations

A declaration is built with a name and without a place; it is placed in an enclosing declaration
later (`Build.setContext`).  Functions, classes and concepts are defined, and variables
initialized, at most once (`Build.define`, `Build.setInitializer`).

The definitions that declarations hold, and statements and initializers, are plain nodes without
a condition of their own: `Build.defn`, `Build.stmt` and `Build.init` build them.
-/

set_option autoImplicit false
namespace SemanticCore
/-- The definition of a declaration that can be defined: `none` if it cannot be, and `some none`
if it can be and is not yet. -/
def DeclForm.definition? : DeclForm → Option (Option DefHandle)
  | function _ _ slot | ofClass slot | concept _ slot => some slot
  | _ => none

/-- A declaration that can be defined, with the given definition. -/
def DeclForm.withDefinition (definition : DefHandle) : DeclForm → DeclForm
  | function t params _ => function t params (some definition)
  | ofClass _ => ofClass (some definition)
  | concept params _ => concept params (some definition)
  | form => form

namespace Build

/-! ## Declarations -/

def namespaceDecl (n : NameHandle) : Build DeclHandle :=
  decl n .ofNamespace

/-- A variable, with its initializer if it has one already. -/
def variableDecl (n : NameHandle) (t : TypeHandle) (init : Option InitHandle) : Build DeclHandle :=
  decl n (.var t init)

/-- A function without a body.  Its parameters have to be object parameters. -/
def functionDecl (n : NameHandle) (params : List DeclHandle) (ret : TypeHandle) :
    Attempt BuildError DeclHandle := do
  let t ← functionType params ret
  decl n (.function t params none)

/-- A class without a definition. -/
def classDecl (n : NameHandle) : Build DeclHandle :=
  decl n (.ofClass none)

/-- A template over the given parameters.  It has the name of the declaration that it
parameterizes. -/
def templateDecl (params : List DeclHandle) (pattern : DeclHandle)
    (constraint : Option ExprHandle) : Build DeclHandle := do
  decl ((← get).decl pattern).name (.template params pattern constraint)

/-- A concept, with its definition if it has one already. -/
def conceptDecl (n : NameHandle) (params : List DeclHandle) (definition : Option DefHandle) :
    Build DeclHandle :=
  decl n (.concept params definition)

/-- A concept defined by an expression. -/
def conceptOfExpr (n : NameHandle) (params : List DeclHandle) (e : ExprHandle) :
    Build DeclHandle := do
  let definition ← defn (.expr e)
  conceptDecl n params (some definition)

/-- A function parameter. -/
def objectParam (n : NameHandle) (t : TypeHandle) : Build DeclHandle :=
  decl n (.objectParam t)

/-- A template parameter that stands for a value. -/
def valueParam (n : NameHandle) (t : TypeHandle) : Build DeclHandle :=
  decl n (.valueParam t)

/-- A template parameter that stands for a type, with its default if it has one. -/
def typeParam (n : NameHandle) (default : Option TypeHandle) : Build DeclHandle :=
  decl n (.typeParam default)

/-! ## Completing declarations -/

/-- Place a declaration. -/
def setContext (d context : DeclHandle) : Build Unit :=
  modifyDecl d fun decl => { decl with context := some context }

/-- Place each of the declarations. -/
def setContexts (ds : List DeclHandle) (context : DeclHandle) : Build Unit :=
  ds.forM fun d => setContext d context

/-- Define a function, class or concept. -/
def define (d : DeclHandle) (definition : DefHandle) : Attempt BuildError Unit := do
  match ((← get).decl d).form.definition? with
  | none => throw (.malformed .definitionOfUndefinable)
  | some (some _) => throw (.alreadyDefined d)
  | some none => modifyDecl d fun decl => { decl with form := decl.form.withDefinition definition }

/-- Initialize a variable. -/
def setInitializer (d : DeclHandle) (init : InitHandle) : Attempt BuildError Unit := do
  match ((← get).decl d).form with
  | .var t none => modifyDecl d fun decl => { decl with form := .var t (some init) }
  | .var _ (some _) => throw (.alreadyDefined d)
  | _ => throw (.malformed .initializerOfNonVariable)

end Build
end SemanticCore
