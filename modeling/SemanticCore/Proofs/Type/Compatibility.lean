import SemanticCore.Proofs.Action.ReferenceVariable

/-!
# Compatible types

A reference can be bound to an object if the two types are the same up to qualifiers and the
reference has those of the object, or more.  So a reference never takes a qualifier away: the types
of the references that can be bound to an object are those that come of adding qualifiers to its
type.

The two sides of this are computed in different ways.  `Graph.referenceCompatible` takes both types
apart, while `Build.qualifiedType` puts a type together and knows nothing of the other one.  They
agree because types are in normal form and interned: a type with the right parts that is in the
graph is the one that adding qualifiers returns, and nothing is added for it.  For the same reason
types that are compatible both ways are one type.

* `Graph.WellFormed.qualifiedType_of_compatible` — the type of the reference is found by adding its
  qualifiers to the type of the object.
* `Graph.Reachable.compatible_order` — **compatible types are those with more qualifiers, and they
  are partially ordered by this.**
-/

set_option autoImplicit false
namespace SemanticCore

open SemanticCore.Graph

theorem Qualifiers.covers_antisymm {a b : Qualifiers} (h : a.covers b = true)
    (h' : b.covers a = true) : a = b := by
  rw [covers_iff] at h h'
  have hconst : a.isConst = b.isConst := Bool.eq_iff_iff.2 ⟨h'.1, h.1⟩
  have hvolatile : a.isVolatile = b.isVolatile := Bool.eq_iff_iff.2 ⟨h'.2, h.2⟩
  cases a
  cases b
  exact (mk.injEq ..).mpr ⟨hconst, hvolatile⟩

theorem Qualifiers.union_comm (a b : Qualifiers) : a.union b = b.union a := by
  rw [union, union, Bool.or_comm, Bool.or_comm a.isVolatile]

/-- A union has the qualifiers of its parts. -/
theorem Qualifiers.covers_union_left (a b : Qualifiers) : (a.union b).covers a = true := by
  rw [covers_iff]
  exact ⟨fun h => Bool.or_eq_true_iff.2 (.inl h), fun h => Bool.or_eq_true_iff.2 (.inl h)⟩

namespace Graph

variable {g : Graph} {s t u : TypeHandle}

theorem referenceCompatible_trans (h : g.referenceCompatible s t = true)
    (h' : g.referenceCompatible t u = true) : g.referenceCompatible s u = true := by
  rw [referenceCompatible_iff] at h h' ⊢
  exact ⟨h.1.trans h'.1, Qualifiers.covers_trans h.2 h'.2⟩

/-- Types that are compatible both ways have the same parts, so they are one type. -/
theorem WellFormed.referenceCompatible_antisymm (hg : g.WellFormed) (hs : g.contains s = true)
    (ht : g.contains t = true) (h : g.referenceCompatible s t = true)
    (h' : g.referenceCompatible t s = true) : s = t := by
  rw [referenceCompatible_iff] at h h'
  exact hg.eq_of_unqualified hs ht h.1 (Qualifiers.covers_antisymm h.2 h'.2)

/-! ## Adding qualifiers -/

/-- Adding qualifiers leads to a type to which a reference can be bound. -/
theorem WellFormed.compatible_of_qualifiedType (hg : g.WellFormed) (quals : Qualifiers)
    (hs : g.contains s = true) (ht : g.contains t = true)
    (h : (Build.qualifiedType t quals g).1 = s) : g.referenceCompatible s t = true := by
  obtain ⟨hgrow, -, href, hparts⟩ := Build.Yields.qualifiedType_parts hg quals ht
  rw [h] at href hparts
  cases hr : g.isReference t with
  | true => exact href hr ▸ referenceCompatible_refl g t
  | false =>
    obtain ⟨hbase, hquals⟩ := hparts hr
    rw [hgrow.extends.unqualified hs] at hbase
    rw [hgrow.extends.quals hs] at hquals
    rw [referenceCompatible_iff, hquals]
    exact ⟨hbase, Qualifiers.covers_union_left _ _⟩

/-- Adding the qualifiers of a compatible type gives that type. -/
theorem WellFormed.qualifiedType_eq_of_compatible (hg : g.WellFormed) (hs : g.contains s = true)
    (ht : g.contains t = true) (h : g.referenceCompatible s t = true) :
    (Build.qualifiedType t (g.quals s) g).1 = s := by
  obtain ⟨hgrow, hc, href, hparts⟩ := Build.Yields.qualifiedType_parts hg (g.quals s) ht
  have hext := hgrow.extends
  cases hr : g.isReference t with
  | true => rw [href hr, hg.eq_of_referenceCompatible hs ht hr h]
  | false =>
    obtain ⟨hbase, hquals⟩ := hparts hr
    obtain ⟨hrelated, hcovers⟩ := referenceCompatible_iff.1 h
    refine (hgrow.wellFormed hg).eq_of_unqualified hc (hext.contains hs) ?_ ?_
    · rw [hbase, hext.unqualified hs, hrelated]
    · rw [hquals, hext.quals hs, Qualifiers.union_comm, Qualifiers.covers_iff_union_eq.1 hcovers]

/-- **A compatible type is found by adding its qualifiers.**  It is in the graph already, so nothing
is added. -/
theorem WellFormed.qualifiedType_of_compatible (hg : g.WellFormed) (hs : g.contains s = true)
    (ht : g.contains t = true) (h : g.referenceCompatible s t = true) :
    Build.qualifiedType t (g.quals s) g = (s, g) := by
  have htree := (Build.Settles.qualifiedType hg (g.quals s) ht).yields
  have hsame : g.typeTree s = (g.typeTree t).qualify (g.quals s) := by
    rw [← htree.2.2, hg.qualifiedType_eq_of_compatible hs ht h,
      hg.typeTree_extend htree.1.extends hs]
  have hrun : (liftM (Build.qualifiedType t (g.quals s)) : Attempt BuildError TypeHandle) g =
      (.ok s, g) := (hg.answers_qualified (g.quals s) ht).2 s hs hsame
  have hresult : Except.ok (Build.qualifiedType t (g.quals s) g).1 = .ok s := congrArg Prod.fst hrun
  have hgraph : (Build.qualifiedType t (g.quals s) g).2 = g := congrArg Prod.snd hrun
  exact Prod.ext (Except.ok.inj hresult) hgraph

/-- **Compatible types are those with more qualifiers.**  A reference of one type can be bound to an
object of another exactly if its type comes of adding some qualifiers to that of the object, and
then adding the qualifiers of the reference leads there without anything being added to the graph.
Types are partially ordered by this: a type is compatible with itself, a type that is compatible
with a compatible one is so too, and types that are compatible both ways are the same. -/
theorem Reachable.compatible_order (hg : g.Reachable) :
    (∀ s t, g.contains s = true → g.contains t = true →
      (g.referenceCompatible s t = true ↔ ∃ quals, (Build.qualifiedType t quals g).1 = s) ∧
      (g.referenceCompatible s t = true → Build.qualifiedType t (g.quals s) g = (s, g))) ∧
    (∀ t, g.referenceCompatible t t = true) ∧
    (∀ s t u, g.referenceCompatible s t = true → g.referenceCompatible t u = true →
      g.referenceCompatible s u = true) ∧
    ∀ s t, g.contains s = true → g.contains t = true → g.referenceCompatible s t = true →
      g.referenceCompatible t s = true → s = t := by
  have hw := hg.wellFormed
  refine ⟨fun s t hs ht => ⟨⟨fun h => ?_, ?_⟩, hw.qualifiedType_of_compatible hs ht⟩,
    referenceCompatible_refl g, fun _ _ _ => referenceCompatible_trans,
    fun _ _ => hw.referenceCompatible_antisymm⟩
  · exact ⟨g.quals s, hw.qualifiedType_eq_of_compatible hs ht h⟩
  · rintro ⟨quals, hquals⟩
    exact hw.compatible_of_qualifiedType quals hs ht hquals

/-- A reference to `const int` can be bound to an `int`, whose type becomes `const int` when `const`
is added, but not the other way round. -/
theorem compatible_order_constInt :
    constInt.Reachable ∧
    (constInt.contains (⟨4⟩ : TypeHandle) = true ∧ constInt.contains (⟨3⟩ : TypeHandle) = true ∧
      constInt.referenceCompatible ⟨4⟩ ⟨3⟩ = true ∧
      Build.qualifiedType ⟨3⟩ (constInt.quals ⟨4⟩) constInt = (⟨4⟩, constInt)) ∧
    constInt.referenceCompatible ⟨3⟩ ⟨3⟩ = true ∧
    (constInt.referenceCompatible ⟨3⟩ ⟨4⟩ = false ∧
      ¬ ∃ quals, (Build.qualifiedType ⟨4⟩ quals constInt).1 = ⟨3⟩) := by
  obtain ⟨hadding, hrefl, -, hantisymm⟩ := constInt_reachable.compatible_order
  have hbinds : constInt.referenceCompatible ⟨4⟩ ⟨3⟩ = true := by decide +kernel
  have hback : constInt.referenceCompatible ⟨3⟩ ⟨4⟩ = false := by
    refine eq_false_of_ne_true fun h => ?_
    cases hantisymm ⟨4⟩ ⟨3⟩ rfl rfl hbinds h
  refine ⟨constInt_reachable, ⟨rfl, rfl, hbinds, (hadding ⟨4⟩ ⟨3⟩ rfl rfl).2 hbinds⟩, hrefl ⟨3⟩,
    hback, fun h => ?_⟩
  rw [← (hadding ⟨3⟩ ⟨4⟩ rfl rfl).1, hback] at h
  cases h

end Graph
end SemanticCore
