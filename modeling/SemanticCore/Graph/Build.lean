import SemanticCore.Graph.Basic

/-!
# Building the graph

A computation of type `Build α` reads the graph and may add nodes to it; `Attempt ε α` is one that
may fail with an error of type `ε`.  *A failed attempt keeps what it has built*: nodes are never
taken back, they are only left without a name.

Here are the primitive additions, one per category.  Asking for an interned node that exists
returns its handle and adds nothing.  The constructors that keep nodes in normal form, and that
check what they are given, are built on these.
-/

set_option autoImplicit false
namespace SemanticCore

/-- A computation that may add nodes to a graph. -/
abbrev Build := StateM Graph

/-- A computation that may add nodes to a graph and may fail, keeping what it added. -/
abbrev Attempt (ε : Type) := ExceptT ε Build

namespace Build

/-- The number of a new placeholder.  The numbers start over once all of them have been handed
out. -/
def fresh : Build UInt32 :=
  modifyGet fun g => (g.nextPlaceholder, { g with nextPlaceholder := g.nextPlaceholder + 1 })

/-- The symbol of a spelling. -/
def symbol (s : String) : Build Symbol :=
  modifyGet fun g =>
    let (symbol, symbols) := g.symbols.intern s
    (symbol, { g with symbols })

/-- The name of the given form. -/
def name (f : NameForm) : Build NameHandle :=
  modifyGet fun g =>
    let (i, names) := g.names.intern f
    (⟨i⟩, { g with names })

/-- The type of the given form.  The flags of a new type are computed from its components. -/
def type (f : TypeForm) : Build TypeHandle :=
  modifyGet fun g =>
    match h : g.types.find? f with
    | some i => (⟨i⟩, g)
    | none =>
      let flags := g.flagsOf f
      (⟨g.types.size⟩, { g with types := g.types.push f h, flags := g.flags.push flags })

/-- The constraint of the given form. -/
def constraint (f : ConsForm) : Build ConsHandle :=
  modifyGet fun g =>
    let (i, constraints) := g.constraints.intern f
    (⟨i⟩, { g with constraints })

/-- A new expression. -/
def expr (form : ExprForm) (type : TypeHandle) : Build ExprHandle :=
  modifyGet fun g => (⟨g.exprs.size⟩, { g with exprs := g.exprs.push ⟨form, type⟩ })

/-- A new declaration, not placed anywhere yet. -/
def decl (name : NameHandle) (form : DeclForm) : Build DeclHandle :=
  modifyGet fun g => (⟨g.decls.size⟩, { g with decls := g.decls.push ⟨name, none, form⟩ })

/-- Update a declaration. -/
def modifyDecl (d : DeclHandle) (f : Decl → Decl) : Build Unit :=
  modify fun g => { g with decls := g.decls.modify d.index f }

/-- A new statement. -/
def stmt (f : StmtForm) : Build StmtHandle :=
  modifyGet fun g => (⟨g.stmts.size⟩, { g with stmts := g.stmts.push f })

/-- A new definition. -/
def defn (f : DefForm) : Build DefHandle :=
  modifyGet fun g => (⟨g.defs.size⟩, { g with defs := g.defs.push f })

/-- A new initializer of an object of the given type. -/
def init (form : InitForm) (type : TypeHandle) : Build InitHandle :=
  modifyGet fun g => (⟨g.inits.size⟩, { g with inits := g.inits.push ⟨form, type⟩ })

/-- A new requirement. -/
def req (f : ReqForm) : Build ReqHandle :=
  modifyGet fun g => (⟨g.reqs.size⟩, { g with reqs := g.reqs.push f })

end Build

/-- The graph of an empty translation unit: the global namespace with its name, and the types
`void`, `bool` and `float`, each at its fixed handle. -/
def Graph.initial (symbols : SymbolTable) (intPrecision : UInt16) : Graph :=
  let start : Build Unit := do
    let global ← Build.name .global
    let _ ← Build.decl global .ofNamespace
    let _ ← Build.type .void
    let _ ← Build.type .bool
    let _ ← Build.type .float
  (start.run (.blank symbols intPrecision)).2

end SemanticCore
