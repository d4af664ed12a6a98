/-!
# Handles

Every node of the term graph belongs to one of nine categories, and is named by a handle: the
category, which is part of the handle's type, and the node's position among the nodes of that
category.  A type handle therefore cannot be taken for an expression handle, and nodes refer to
each other by handles only.

Handles of one category are ordered by position.  A node that is built from other nodes is entered
after them, so the order is also what makes walks through the graph end.
-/

set_option autoImplicit false
namespace SemanticCore

/-- The categories of nodes. -/
inductive Category where
  | name
  | type
  | expr
  | decl
  | stmt
  | defn
  | init
  | cons
  | req
deriving DecidableEq

/-- The word that stands before the position in the text of a handle. -/
def Category.label : Category → String
  | .name => "NameId"
  | .type => "TypeId"
  | .expr => "ExprId"
  | .decl => "DeclId"
  | .stmt => "StmtId"
  | .defn => "DefId"
  | .init => "InitId"
  | .cons => "ConsId"
  | .req => "ReqId"

/-- A node of the category `c`, named by its position among the nodes of that category. -/
@[ext]
structure Handle (c : Category) where
  /-- The position of the node. -/
  index : Nat
deriving DecidableEq, Inhabited

/-- A handle of a name. -/
abbrev NameHandle := Handle .name

/-- A handle of a type. -/
abbrev TypeHandle := Handle .type

/-- A handle of an expression. -/
abbrev ExprHandle := Handle .expr

/-- A handle of a declaration. -/
abbrev DeclHandle := Handle .decl

/-- A handle of a statement. -/
abbrev StmtHandle := Handle .stmt

/-- A handle of a definition. -/
abbrev DefHandle := Handle .defn

/-- A handle of an initializer. -/
abbrev InitHandle := Handle .init

/-- A handle of a constraint. -/
abbrev ConsHandle := Handle .cons

/-- A handle of a requirement. -/
abbrev ReqHandle := Handle .req

namespace Handle

variable {c : Category}

instance : LT (Handle c) := ⟨fun a b => a.index < b.index⟩

instance : LE (Handle c) := ⟨fun a b => a.index ≤ b.index⟩

instance (a b : Handle c) : Decidable (a < b) := inferInstanceAs (Decidable (a.index < b.index))

instance (a b : Handle c) : Decidable (a ≤ b) := inferInstanceAs (Decidable (a.index ≤ b.index))

theorem lt_iff {a b : Handle c} : a < b ↔ a.index < b.index := Iff.rfl

theorem le_iff {a b : Handle c} : a ≤ b ↔ a.index ≤ b.index := Iff.rfl

/-- The handle as its category and position, as in `ExprId(3)`. -/
def text (h : Handle c) : String :=
  c.label ++ "(" ++ h.index.repr ++ ")"

/-- The name of the global namespace. -/
def globalName : NameHandle := ⟨0⟩

/-- The global namespace. -/
def globalNamespace : DeclHandle := ⟨0⟩

/-- The type `void`. -/
def void : TypeHandle := ⟨0⟩

/-- The type `bool`. -/
def bool : TypeHandle := ⟨1⟩

/-- The type `float`. -/
def float : TypeHandle := ⟨2⟩

end Handle
end SemanticCore
