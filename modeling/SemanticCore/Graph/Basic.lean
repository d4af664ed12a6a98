import SemanticCore.Form.Code
import SemanticCore.TypeFlags

/-!
# The term graph

Everything that is known about one translation unit is a node of its term graph.  The graph keeps
one sequence of nodes per category, and a handle is a position in such a sequence.  Names, types
and constraints are interned, so for these categories equal handles mean equal structure; the
other sequences only ever grow at the end, and of their nodes only declarations are updated.

This file holds the graph and how it is read.  Reading a handle that names no node gives a
default; `Graph.contains` tells which handles name one.
-/

set_option autoImplicit false
namespace SemanticCore

/-- The flags that the construct itself sets, whatever its components are. -/
def TypeForm.ownFlags : TypeForm → TypeFlags
  | .auto _ | .declauto _ => { TypeFlags.none with placeholder := true }
  | .typename _ => { TypeFlags.none with parameter := true }
  | .archetype _ => { TypeFlags.none with archetype := true }
  | .ofClass _ => { TypeFlags.none with classType := true }
  | _ => .none

/-- The nodes of one translation unit. -/
structure Graph where
  /-- The width of `int` and `unsigned int`. -/
  intPrecision : UInt16
  /-- The spellings of identifiers. -/
  symbols : SymbolTable
  names : Interned NameForm
  types : Interned TypeForm
  /-- The flags of each type. -/
  flags : Array TypeFlags
  exprs : Array Expr
  decls : Array Decl
  stmts : Array StmtForm
  defs : Array DefForm
  inits : Array Init
  constraints : Interned ConsForm
  reqs : Array ReqForm
  /-- The number of the next placeholder, a name or a type.  It goes around after the last one. -/
  nextPlaceholder : UInt32

namespace Graph

/-- The graph without nodes. -/
def blank (symbols : SymbolTable) (intPrecision : UInt16) : Graph where
  intPrecision
  symbols
  names := .empty
  types := .empty
  flags := #[]
  exprs := #[]
  decls := #[]
  stmts := #[]
  defs := #[]
  inits := #[]
  constraints := .empty
  reqs := #[]
  nextPlaceholder := 0

instance : Inhabited Graph := ⟨blank .empty 0⟩

/-- The number of nodes of a category. -/
def count (g : Graph) : Category → Nat
  | .name => g.names.size
  | .type => g.types.size
  | .expr => g.exprs.size
  | .decl => g.decls.size
  | .stmt => g.stmts.size
  | .defn => g.defs.size
  | .init => g.inits.size
  | .cons => g.constraints.size
  | .req => g.reqs.size

/-- The handle names a node of the graph. -/
def contains (g : Graph) {c : Category} (h : Handle c) : Bool :=
  h.index < g.count c

/-! ## Reading nodes -/

variable (g : Graph)

/-- The form of a name. -/
def name (n : NameHandle) : NameForm :=
  g.names.nodes[n.index]?.getD default

/-- The form of a type. -/
def type (t : TypeHandle) : TypeForm :=
  g.types.nodes[t.index]?.getD default

/-- The flags of a type. -/
def typeFlags (t : TypeHandle) : TypeFlags :=
  g.flags[t.index]?.getD .none

/-- An expression. -/
def expr (e : ExprHandle) : Expr :=
  g.exprs[e.index]?.getD default

/-- The static type of an expression. -/
def exprType (e : ExprHandle) : TypeHandle :=
  (g.expr e).type

/-- A declaration. -/
def decl (d : DeclHandle) : Decl :=
  g.decls[d.index]?.getD default

/-- The form of a statement. -/
def stmt (s : StmtHandle) : StmtForm :=
  g.stmts[s.index]?.getD default

/-- The form of a definition. -/
def defn (d : DefHandle) : DefForm :=
  g.defs[d.index]?.getD default

/-- An initializer. -/
def init (i : InitHandle) : Init :=
  g.inits[i.index]?.getD default

/-- The form of a constraint. -/
def cons (c : ConsHandle) : ConsForm :=
  g.constraints.nodes[c.index]?.getD default

/-- The form of a requirement. -/
def req (r : ReqHandle) : ReqForm :=
  g.reqs[r.index]?.getD default

/-! ## Flags -/

/-- The flags of a type that is about to be entered, from those of its components. -/
def flagsOf (f : TypeForm) : TypeFlags :=
  f.ownFlags.union (.unions (f.components.map g.typeFlags))

/-- The graph is shown by the sizes of its main sequences. -/
def text : String :=
  "TermGraph \x7b names: " ++ g.names.size.repr ++ ", types: " ++ g.types.size.repr ++
    ", exprs: " ++ g.exprs.size.repr ++ ", decls: " ++ g.decls.size.repr ++ ", cons: " ++
    g.constraints.size.repr ++ ", .. \x7d"

/-- The builder of a graph is shown by its configuration and its graph. -/
def builderText : String :=
  "Builder \x7b config: BuildConfig \x7b int_precision: " ++ g.intPrecision.toNat.repr ++
    " \x7d, graph: " ++ g.text ++ " \x7d"

end Graph
end SemanticCore
