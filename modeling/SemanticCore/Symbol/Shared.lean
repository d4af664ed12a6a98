import SemanticCore.Name

/-!
# Sharing a symbol table

The graphs of several translation units can spell their identifiers through one table, so that a
symbol means the same spelling in all of them.  The names themselves belong to each graph.
-/

set_option autoImplicit false
namespace SemanticCore

/-- Graphs that share a symbol table. -/
structure SharedSymbols where
  table : SymbolTable
  graphs : List Graph

namespace SharedSymbols

/-- An empty table, shared by the given number of empty translation units. -/
def initial (units : Nat) (intPrecision : UInt16) : SharedSymbols where
  table := .empty
  graphs := List.replicate units (.initial .empty intPrecision)

variable (s : SharedSymbols)

/-- The symbol of a spelling, which is entered if it is new. -/
def intern (spelling : String) : Symbol × SharedSymbols :=
  let (symbol, table) := SymbolTable.intern s.table spelling
  (symbol, { s with table })

/-- The `n`th graph, spelling through the shared table. -/
def graph? (n : Nat) : Option Graph :=
  s.graphs[n]?.map fun g => { g with symbols := s.table }

/-- The name of an identifier in the `n`th graph. -/
def identifier? (n : Nat) (spelling : String) : Option (NameHandle × SharedSymbols) :=
  (s.graph? n).map fun g =>
    let (name, g) := (Build.identifier spelling).run g
    (name, { table := g.symbols, graphs := s.graphs.set n g })

end SharedSymbols
end SemanticCore
