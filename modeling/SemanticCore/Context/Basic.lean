import SemanticCore.Diagnostic.Queue
import SemanticCore.Graph.Build
import SemanticCore.Expr.Equivalence
import SemanticCore.Template.Oracle

/-!
# The context

The context is what resolution knows besides the term graph: which scopes are open and what is
bound in them, inside which templates and requirements it is, what has been reported, and where in
the source it is.

Bindings are kept in one list, the latest first.  A scope only records how many bindings there were
when it was opened: what was bound since then belongs to it or to scopes inside it, and leaving it
cuts the list back to that number.  The global scope is always open and is not recorded, so the
context cannot lose it.
-/

set_option autoImplicit false
namespace SemanticCore

/-- How constructs are resolved. -/
structure Config where
  /-- The width of `int`. -/
  intPrecision : UInt16
  /-- What the diagnostic queue drops. -/
  queue : QueueConfig
  /-- A call that the enclosing constraints do not cover is an error, not a warning. -/
  strict : Bool
deriving DecidableEq

/-- An `int` of 32 bits, a standard queue, and warnings for calls that are not covered. -/
instance : Inhabited Config := ⟨⟨32, .standard, false⟩⟩

/-- The graph of an empty translation unit. -/
def Config.newGraph (c : Config) (symbols : SymbolTable) : Graph :=
  .initial symbols c.intPrecision

/-- A scope other than the global one. -/
structure Scope where
  /-- The declaration that the scope belongs to. -/
  owner : DeclHandle
  /-- The number of bindings when the scope was opened. -/
  start : Nat
deriving DecidableEq, Inhabited

/-- A template that is being declared. -/
structure TemplateFrame where
  params : List DeclHandle
  constraint : Option ExprHandle
deriving DecidableEq, Inhabited

/-- What resolution knows besides the term graph. -/
structure Context where
  config : Config
  /-- The open scopes but the global one, the innermost first. -/
  scopes : List Scope
  /-- The bindings of the open scopes, the latest first. -/
  bindings : List (NameHandle × DeclHandle)
  /-- The enclosing templates, the innermost first. -/
  templates : List TemplateFrame
  /-- The expressions required so far in each enclosing requires-expression, the innermost
  first. -/
  requirements : List (List ExprHandle)
  diagnostics : DiagnosticQueue
  oracle : Oracle
  /-- The place in the source that reports refer to. -/
  location : Span

namespace Context

/-- The context at the start of a translation unit. -/
def initial (config : Config) (oracle : Oracle) : Context where
  config
  scopes := []
  bindings := []
  templates := []
  requirements := []
  diagnostics := .empty config.queue
  oracle
  location := .dummy

instance : Inhabited Context := ⟨initial default default⟩

variable (c : Context)

/-! ## Scopes and bindings -/

/-- The number of open scopes. -/
def depth : Nat :=
  c.scopes.length + 1

/-- The innermost scope. -/
def innermost : Scope :=
  c.scopes.headD ⟨.globalNamespace, 0⟩

/-- The declaration that the innermost scope belongs to. -/
def currentScope : DeclHandle :=
  c.innermost.owner

/-- The latest binding of a name. -/
def lookup? (n : NameHandle) : Option DeclHandle :=
  c.bindings.lookup n

/-- The latest binding of a name in the innermost scope. -/
def lookupLocal? (n : NameHandle) : Except Misuse (Option DeclHandle) :=
  if c.innermost.start ≤ c.bindings.length then
    .ok ((c.bindings.take (c.bindings.length - c.innermost.start)).lookup n)
  else
    .error .staleScope

/-- Bind a name in the innermost scope.  Whether the scope binds it already is not asked. -/
def bind (n : NameHandle) (d : DeclHandle) : Context :=
  { c with bindings := (n, d) :: c.bindings }

/-- Keep the oldest `n` items of a list that has the latest first. -/
def oldest {α : Type} (n : Nat) (items : List α) : List α :=
  items.drop (items.length - n)

/-- Open a scope. -/
def pushScope (owner : DeclHandle) : Context :=
  { c with scopes := ⟨owner, c.bindings.length⟩ :: c.scopes }

/-- Close the innermost scope and remove its bindings.  The global scope stays open. -/
def popScope : Context :=
  match c.scopes with
  | [] => c
  | scope :: outer => { c with scopes := outer, bindings := oldest scope.start c.bindings }

/-! ## Templates -/

/-- Inside a template. -/
def inTemplate : Bool :=
  !c.templates.isEmpty

/-- The innermost template has no constraint. -/
def inUnconstrainedTemplate : Bool :=
  match c.templates with
  | [] => false
  | frame :: _ => frame.constraint.isNone

/-- The constraint of the innermost template. -/
def currentConstraint? : Option ExprHandle :=
  c.templates.head?.bind (·.constraint)

/-- The parameters of the innermost template. -/
def currentParams : List DeclHandle :=
  match c.templates with
  | [] => []
  | frame :: _ => frame.params

/-- Enter a template.  Its parameters get a scope of their own, which belongs to the declaration
around the template. -/
def pushTemplate (params : List DeclHandle) (constraint : Option ExprHandle) : Context :=
  let c := c.pushScope c.currentScope
  { c with templates := ⟨params, constraint⟩ :: c.templates }

/-- Leave a template. -/
def popTemplate : Context :=
  { c with templates := c.templates.tail }.popScope

/-! ## Requirements -/

/-- Inside a requires-expression. -/
def inRequirements : Bool :=
  !c.requirements.isEmpty

/-- The expressions required so far by the innermost requires-expression. -/
def requiredExprs : List ExprHandle :=
  c.requirements.headD []

/-- Enter a requires-expression. -/
def pushRequirements : Context :=
  let c := c.pushScope c.currentScope
  { c with requirements := [] :: c.requirements }

/-- Leave a requires-expression. -/
def popRequirements : Context :=
  { c with requirements := c.requirements.tail }.popScope

/-- Require an expression in the innermost requires-expression.  If an equivalent one is required
there already, that one is returned and nothing changes. -/
def require (g : Graph) (e : ExprHandle) : ExprHandle × Context :=
  match c.requirements with
  | [] => (e, c)
  | required :: outer =>
    match required.find? fun x => g.equivalent x e with
    | some x => (x, c)
    | none => (e, { c with requirements := (required ++ [e]) :: outer })

/-! ## Reports -/

/-- Refer to another place in the source from here on. -/
def setLocation (span : Span) : Context :=
  { c with location := span }

/-- Report a diagnostic. -/
def warn (d : Diagnostic) : Context :=
  { c with diagnostics := (c.diagnostics.add d).2 }

/-- Report an error. -/
def reportError (d : Diagnostic) : Except Misuse Context :=
  match c.diagnostics.report d with
  | .ok diagnostics => .ok { c with diagnostics }
  | .error m => .error m

/-- The reported diagnostics in the order of the source, and the context without them. -/
def flush : List Diagnostic × Context :=
  let (ds, diagnostics) := c.diagnostics.flush
  (ds, { c with diagnostics })

/-- The context is shown by the sizes of its parts. -/
def text : String :=
  "Context \x7b scopes: " ++ c.depth.repr ++ ", bindings: " ++ c.bindings.length.repr ++
    ", templates: " ++ c.templates.length.repr ++ ", requirements: " ++
    c.requirements.length.repr ++ ", diagnostics: " ++ c.diagnostics.size.repr ++ ", oracle: " ++
    c.oracle.label ++ ", .. \x7d"

end Context
end SemanticCore
