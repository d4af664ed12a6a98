/-!
# Type flags

Each type of the term graph comes with five flags that say which sorts of component occur anywhere
inside it.  They are computed once, from the flags of the components, when the type is entered
into the graph, so that asking whether a type is dependent never walks through the type.
-/

set_option autoImplicit false
namespace SemanticCore

/-- Which sorts of component occur somewhere in a type. -/
structure TypeFlags where
  /-- A placeholder, `auto` or `decltype(auto)`. -/
  placeholder : Bool
  /-- The type named by a template type parameter. -/
  parameter : Bool
  /-- The type of an expression, `decltype(e)`. -/
  decltype : Bool
  /-- An archetype made while constraints are checked. -/
  archetype : Bool
  /-- A class type. -/
  classType : Bool
deriving DecidableEq, Inhabited

namespace TypeFlags

/-- No flag is set. -/
def none : TypeFlags := ⟨false, false, false, false, false⟩

/-- The flags set in either argument. -/
def union (a b : TypeFlags) : TypeFlags :=
  ⟨a.placeholder || b.placeholder, a.parameter || b.parameter, a.decltype || b.decltype,
    a.archetype || b.archetype, a.classType || b.classType⟩

/-- The flags set in some member of the list. -/
def unions (fs : List TypeFlags) : TypeFlags :=
  fs.foldl union none

/-- What the type stands for is known only once its template is instantiated. -/
def isDependent (a : TypeFlags) : Bool :=
  a.placeholder || a.parameter || a.decltype

/-- The flags as a number, one bit per flag in the order of the fields. -/
def bits (a : TypeFlags) : Nat :=
  a.placeholder.toNat + 2 * a.parameter.toNat + 4 * a.decltype.toNat + 8 * a.archetype.toNat +
    16 * a.classType.toNat

/-- The flags with the given number; bits that stand for no flag are ignored. -/
def ofBits (n : Nat) : TypeFlags :=
  ⟨n.testBit 0, n.testBit 1, n.testBit 2, n.testBit 3, n.testBit 4⟩

theorem none_union (a : TypeFlags) : none.union a = a := by
  rcases a with ⟨⟩
  simp [union, none]

theorem union_assoc (a b c : TypeFlags) : (a.union b).union c = a.union (b.union c) := by
  simp [union, Bool.or_assoc]

theorem ofBits_bits (a : TypeFlags) : ofBits a.bits = a := by
  rcases a with ⟨_ | _, _ | _, _ | _, _ | _, _ | _⟩ <;> rfl

end TypeFlags
end SemanticCore
