import SemanticCore.Interned

/-!
# Symbols

An identifier is stored once, in a symbol table, and stands in the term graph as a number: its
position in the order in which spellings were first seen.  Two identifiers are the same exactly
when their symbols are.
-/

set_option autoImplicit false
namespace SemanticCore

/-- A spelling, named by its position in a symbol table. -/
structure Symbol where
  /-- The position of the spelling. -/
  index : Nat
deriving DecidableEq, Inhabited

/-- The symbol as in `Symbol(3)`. -/
def Symbol.text (s : Symbol) : String :=
  "Symbol(" ++ s.index.repr ++ ")"

/-- The spellings seen so far, in the order of their first appearance. -/
abbrev SymbolTable := Interned String

namespace SymbolTable

/-- The symbol of a spelling, which is entered if it is new. -/
def intern (t : SymbolTable) (s : String) : Symbol × SymbolTable :=
  let (i, t) := Interned.intern t s
  (⟨i⟩, t)

/-- The symbol of a spelling that was seen before. -/
def find? (t : SymbolTable) (s : String) : Option Symbol :=
  (Interned.find? t s).map Symbol.mk

/-- The spelling of a symbol of this table. -/
def spelling? (t : SymbolTable) (s : Symbol) : Option String :=
  t.nodes[s.index]?

/-- How a table that several builders share is shown. -/
def text (t : SymbolTable) : String :=
  "SharedSymbols \x7b len: " ++ t.size.repr ++ " \x7d"

end SymbolTable
end SemanticCore
