import Std.Data.TreeMap.Lemmas

/-!
# Interning tables

An interning table stores values in the order in which they were first asked for and never stores
the same value twice.  A value is then named by its position, and *equal positions mean equal
values*: comparing two structures of any depth becomes comparing two numbers.

The table finds a value by its code, a list of numbers that determines the value
(`Coded.code_injective`).  Codes are ordered, so the positions live in a search tree; the field
`Interned.find_iff` says that tree and storage agree, and it is all that is ever used of the tree.

* `Interned.intern` enters a value unless it is there.
* `Interned.getElem?_intern` — the value is found at the position returned.
* `Interned.intern_of_getElem?` — asking for a stored value changes nothing.
-/

set_option autoImplicit false
namespace SemanticCore

/-- Values that are determined by a list of numbers. -/
class Coded (κ : Type) where
  /-- The code of a value. -/
  code : κ → List Nat
  /-- Different values have different codes. -/
  code_injective : ∀ {a b : κ}, code a = code b → a = b

/-- An identifier is coded by its characters. -/
instance : Coded String where
  code s := s.toList.map Char.toNat
  code_injective h :=
    String.toList_injective ((List.map_inj_right fun _ _ => Char.toNat_inj.1).1 h)

/-- Values stored once each, in the order of their first appearance. -/
structure Interned (κ : Type) [Coded κ] where
  /-- The stored values. -/
  nodes : Array κ
  /-- The position of each stored code. -/
  positions : Std.TreeMap (List Nat) Nat
  /-- Positions and storage agree. -/
  find_iff : ∀ (k : κ) (i : Nat), positions[Coded.code k]? = some i ↔ nodes[i]? = some k

namespace Interned

variable {κ : Type} [Coded κ]

/-- The table without values. -/
def empty : Interned κ where
  nodes := #[]
  positions := ∅
  find_iff := by simp

instance : Inhabited (Interned κ) := ⟨empty⟩

/-- The number of stored values. -/
def size (t : Interned κ) : Nat :=
  t.nodes.size

/-- The position of a value, if it is stored. -/
def find? (t : Interned κ) (k : κ) : Option Nat :=
  t.positions[Coded.code k]?

/-- The position of a value is where it is stored. -/
theorem find?_eq_some_iff {t : Interned κ} {k : κ} {i : Nat} :
    t.find? k = some i ↔ t.nodes[i]? = some k :=
  t.find_iff k i

/-- Tree and storage still agree after a value is entered in both that was in neither. -/
theorem find_iff_push {t : Interned κ} {k : κ} (h : t.find? k = none) (k' : κ) (i : Nat) :
    (t.positions.insert (Coded.code k) t.nodes.size)[Coded.code k']? = some i ↔
      (t.nodes.push k)[i]? = some k' := by
  have hs : t.nodes[i]? ≠ some k := fun hi => by simp [find?_eq_some_iff.2 hi] at h
  rw [Std.TreeMap.getElem?_insert, Array.getElem?_push]
  by_cases hc : k = k'
  · subst hc
    by_cases hi : i = t.nodes.size
    · simp [hi]
    · simp [hi, hs, Ne.symm hi]
  · have hne : compare (Coded.code k) (Coded.code k') ≠ .eq := fun he =>
      hc (Coded.code_injective (Std.LawfulEqOrd.eq_of_compare he))
    rw [if_neg hne, t.find_iff]
    by_cases hi : i = t.nodes.size
    · simp [hi, hc]
    · simp [hi]

/-- Store a value that is not stored yet.  The tree comes first: once the position is known, the
array is extended in place. -/
def push (t : Interned κ) (k : κ) (h : t.find? k = none) : Interned κ :=
  let positions := t.positions.insert (Coded.code k) t.nodes.size
  { nodes := t.nodes.push k, positions, find_iff := find_iff_push h }

/-- The position of a value, which is stored at the end if it is new. -/
def intern (t : Interned κ) (k : κ) : Nat × Interned κ :=
  match h : t.find? k with
  | some i => (i, t)
  | none => (t.nodes.size, t.push k h)

/-- **The value is found at the position returned.** -/
theorem getElem?_intern (t : Interned κ) (k : κ) :
    (t.intern k).2.nodes[(t.intern k).1]? = some k := by
  unfold intern
  split
  · next i h => exact find?_eq_some_iff.1 h
  · simp [push]

/-- **Asking for a stored value changes nothing.** -/
theorem intern_of_getElem? {t : Interned κ} {k : κ} {i : Nat} (h : t.nodes[i]? = some k) :
    t.intern k = (i, t) := by
  have hf := find?_eq_some_iff.2 h
  unfold intern
  split
  · next j hj => rw [hj] at hf; cases hf; rfl
  · next hj => rw [hj] at hf; cases hf

/-- Asking for a value that is not stored puts it at the end. -/
theorem nodes_intern_of_forall_ne {t : Interned κ} {k : κ} (h : ∀ i : Nat, t.nodes[i]? ≠ some k) :
    (t.intern k).1 = t.nodes.size ∧ (t.intern k).2.nodes = t.nodes.push k := by
  unfold intern
  split
  · next i hi => exact absurd (find?_eq_some_iff.1 hi) (h i)
  · exact ⟨rfl, rfl⟩

/-- Equal values stand at equal positions. -/
theorem index_unique {t : Interned κ} {k : κ} {i j : Nat} (hi : t.nodes[i]? = some k)
    (hj : t.nodes[j]? = some k) : i = j := by
  have h := find?_eq_some_iff.2 hi
  rw [find?_eq_some_iff.2 hj] at h
  exact (Option.some.inj h).symm

end Interned
end SemanticCore
