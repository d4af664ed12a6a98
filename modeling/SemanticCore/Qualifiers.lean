/-!
# Qualifier sets

The qualifiers `const` and `volatile` that a type may carry at its top level.  A qualifier set is
part of the identity of a qualified type, so sets are compared for equality; conversions and
reference binding compare them by inclusion (`Qualifiers.covers`).
-/

set_option autoImplicit false
namespace SemanticCore

/-- A set of type qualifiers. -/
structure Qualifiers where
  /-- The object may not be written through this type. -/
  isConst : Bool
  /-- Reads and writes through this type are observable. -/
  isVolatile : Bool
deriving DecidableEq, Inhabited

namespace Qualifiers

/-- The empty set. -/
def none : Qualifiers := ⟨false, false⟩

/-- The set `{const}`. -/
def const : Qualifiers := ⟨true, false⟩

/-- The set `{volatile}`. -/
def volatile : Qualifiers := ⟨false, true⟩

/-- The qualifiers of either set. -/
def union (a b : Qualifiers) : Qualifiers :=
  ⟨a.isConst || b.isConst, a.isVolatile || b.isVolatile⟩

/-- Every qualifier of `b` is in `a`. -/
def covers (a b : Qualifiers) : Bool :=
  (a.isConst || !b.isConst) && (a.isVolatile || !b.isVolatile)

/-- The set has no qualifier. -/
def isNone (a : Qualifiers) : Bool :=
  !a.isConst && !a.isVolatile

/-- The set as a number: `const` counts 1 and `volatile` counts 2. -/
def bits (a : Qualifiers) : Nat :=
  a.isConst.toNat + 2 * a.isVolatile.toNat

/-- The set with the given number; bits that stand for no qualifier are ignored. -/
def ofBits (n : Nat) : Qualifiers :=
  ⟨n.testBit 0, n.testBit 1⟩

theorem ofBits_bits (a : Qualifiers) : ofBits a.bits = a := by
  rcases a with ⟨_ | _, _ | _⟩ <;> rfl

theorem bits_injective {a b : Qualifiers} (h : a.bits = b.bits) : a = b := by
  rw [← ofBits_bits a, h, ofBits_bits]

/-- Inclusion is being absorbed by the union. -/
theorem covers_iff_union_eq {a b : Qualifiers} : a.covers b = true ↔ a.union b = a := by
  rcases a with ⟨_ | _, _ | _⟩ <;> rcases b with ⟨_ | _, _ | _⟩ <;> decide

end Qualifiers
end SemanticCore
