import SemanticCore.Form.Basic

/-!
# Codes of forms

Names, types and constraints are interned, so their forms need codes: lists of numbers that
determine the form.  A code starts with a number for the construct; then come the parts, handles
by their position, with the one part of variable length last.
-/

set_option autoImplicit false
namespace SemanticCore

namespace Term

/-- A term as a number: the position of the node, and its category in the remainder by three. -/
def number : Term → Nat
  | type t => 3 * t.index
  | expr e => 3 * e.index + 1
  | decl d => 3 * d.index + 2

theorem number_injective {a b : Term} (h : a.number = b.number) : a = b := by
  rcases a with ⟨⟨a⟩⟩ | ⟨⟨a⟩⟩ | ⟨⟨a⟩⟩ <;> rcases b with ⟨⟨b⟩⟩ | ⟨⟨b⟩⟩ | ⟨⟨b⟩⟩ <;>
    simp [number] at h ⊢ <;> omega

end Term

theorem map_number_injective {as bs : List Term} (h : as.map Term.number = bs.map Term.number) :
    as = bs :=
  (List.map_inj_right fun _ _ => Term.number_injective).1 h

theorem map_index_injective {c : Category} {as bs : List (Handle c)}
    (h : as.map Handle.index = bs.map Handle.index) : as = bs :=
  (List.map_inj_right fun _ _ => Handle.ext).1 h

/-- The code of a name. -/
def NameForm.code : NameForm → List Nat
  | simple s => [0, s.index]
  | placeholder n => [1, n]
  | template d args => 2 :: d.index :: args.map Term.number
  | concept d args => 3 :: d.index :: args.map Term.number
  | qualified scope name => [4, scope.index, name.index]
  | global => [5]

instance : Coded NameForm where
  code := NameForm.code
  code_injective {a b} h := by
    cases a <;> cases b <;> simp [NameForm.code] at h ⊢
    case simple.simple a b => cases a; cases b; simp_all
    case placeholder.placeholder => exact UInt32.toNat_inj.1 h
    case template.template => exact ⟨Handle.ext h.1, map_number_injective h.2⟩
    case concept.concept => exact ⟨Handle.ext h.1, map_number_injective h.2⟩
    case qualified.qualified => exact ⟨Handle.ext h.1, Handle.ext h.2⟩

/-- The code of a type. -/
def TypeForm.code : TypeForm → List Nat
  | void => [0]
  | bool => [1]
  | int signed precision => [2, signed.toNat, precision.toNat]
  | float => [3]
  | auto n => [4, n]
  | declauto n => [5, n]
  | function params ret => 6 :: ret.index :: params.map Handle.index
  | qualified base quals => [7, base.index, quals.bits]
  | pointer t => [8, t.index]
  | reference t => [9, t.index]
  | sequence t => [10, t.index]
  | ofClass d => [11, d.index]
  | typename d => [12, d.index]
  | archetype d => [13, d.index]

theorem bool_toNat_injective {a b : Bool} (h : a.toNat = b.toNat) : a = b := by
  cases a <;> cases b <;> simp_all

instance : Coded TypeForm where
  code := TypeForm.code
  code_injective {a b} h := by
    cases a <;> cases b <;> simp [TypeForm.code] at h ⊢
    case int.int => exact ⟨bool_toNat_injective h.1, UInt16.toNat_inj.1 h.2⟩
    case auto.auto => exact UInt32.toNat_inj.1 h
    case declauto.declauto => exact UInt32.toNat_inj.1 h
    case function.function => exact ⟨map_index_injective h.2, Handle.ext h.1⟩
    case qualified.qualified => exact ⟨Handle.ext h.1, Qualifiers.bits_injective h.2⟩
    all_goals exact Handle.ext h

/-- The code of a constraint. -/
def ConsForm.code : ConsForm → List Nat
  | concept d args => 0 :: d.index :: args.map Term.number
  | predicate e => [1, e.index]
  | conjunction lhs rhs => [2, lhs.index, rhs.index]
  | disjunction lhs rhs => [3, lhs.index, rhs.index]

instance : Coded ConsForm where
  code := ConsForm.code
  code_injective {a b} h := by
    cases a <;> cases b <;> simp [ConsForm.code] at h ⊢
    case concept.concept => exact ⟨Handle.ext h.1, map_number_injective h.2⟩
    case predicate.predicate => exact Handle.ext h
    all_goals exact ⟨Handle.ext h.1, Handle.ext h.2⟩

end SemanticCore
