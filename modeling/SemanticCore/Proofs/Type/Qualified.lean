import SemanticCore.Proofs.Action.Reachable
import SemanticCore.Proofs.Template.Instantiation

/-!
# The normal form of qualified types

Qualifiers are added by one constructor, which has four cases: the type is a reference, it has the
qualifiers already, it has others, or it has none.  What the cases have in common is that the
qualifiers of the result are the union of those that were there and those that are added, on the
same unqualified type (`Build.Yields.qualifiedType_parts`); only a reference takes none.

A type that is no reference is determined by its unqualified type and its qualifiers
(`Graph.WellFormed.eq_of_unqualified`), since types are interned and a qualified type is always in
normal form: its base is neither qualified nor a reference, and its qualifier set is not empty.  So
adding qualifiers behaves like a union of sets on handles.

* `Graph.Reachable.qualification_laws` — **the normal form and the laws of adding qualifiers.**
-/

set_option autoImplicit false
namespace SemanticCore

open SemanticCore.Graph

variable {g : Graph} {t : TypeHandle}

namespace Graph

/-- A type that is not qualified has no qualifiers. -/
theorem quals_of_plain (hq : (g.type t).isQualified = false) : g.quals t = .none := by
  rw [quals]
  cases hf : g.type t with
  | qualified base own => rw [hf] at hq; cases hq
  | _ => rfl

/-- A qualified type adds its qualifiers to its unqualified type. -/
theorem type_of_isQualified (hq : (g.type t).isQualified = true) :
    g.type t = .qualified (g.unqualified t) (g.quals t) := by
  rw [unqualified, quals]
  cases hf : g.type t with
  | qualified base own => rfl
  | _ => rw [hf] at hq; cases hq

/-- A type is qualified exactly if it has qualifiers. -/
theorem WellFormed.isNone_quals (hg : g.WellFormed) (ht : g.contains t = true) :
    (g.quals t).isNone = !(g.type t).isQualified := by
  cases hq : (g.type t).isQualified with
  | false => rw [quals_of_plain hq]; rfl
  | true => exact (hg.fits_of_type ht (type_of_isQualified hq)).2.2.2

/-- **A type is determined by its unqualified type and its qualifiers.** -/
theorem WellFormed.eq_of_unqualified (hg : g.WellFormed) {s : TypeHandle}
    (hs : g.contains s = true) (ht : g.contains t = true)
    (h : g.unqualified s = g.unqualified t) (hquals : g.quals s = g.quals t) : s = t := by
  have hsame : (g.type s).isQualified = (g.type t).isQualified := by
    have hs := hg.isNone_quals hs
    rw [hquals, hg.isNone_quals ht] at hs
    exact (Bool.not_inj hs).symm
  cases hq : (g.type t).isQualified with
  | true =>
    refine type_injective hs ht ?_
    rw [type_of_isQualified hq, type_of_isQualified (hsame.trans hq), h, hquals]
  | false => rwa [unqualified_of_plain (hsame.trans hq), unqualified_of_plain hq] at h

end Graph

namespace Build

/-- **What adding qualifiers does to the parts of a type**: a reference stays as it is, and on any
other type the qualifiers are added to those of the type. -/
theorem Yields.qualifiedType_parts (hg : g.WellFormed) (quals : Qualifiers)
    (ht : g.contains t = true) :
    Yields g (qualifiedType t quals) fun u g' => g'.contains u = true ∧
      (g.isReference t = true → u = t) ∧
      (g.isReference t = false → g'.unqualified u = g.unqualified t ∧
        g'.quals u = (g.quals t).union quals) := by
  have hfits := (hg.placed t ht).1
  refine .get_bind ?_
  cases hf : g.type t with
  | reference target =>
    refine .pure ⟨ht, fun _ => rfl, fun h => ?_⟩
    rw [isReference, hf] at h
    cases h
  | qualified base own =>
    have hr : ¬ g.isReference t = true := by rw [isReference, hf]; exact Bool.false_ne_true
    have hq : g.quals t = own := by rw [Graph.quals, hf]
    rw [hf] at hfits
    dsimp only
    split
    · next hcov =>
      refine .pure ⟨ht, fun h => absurd h hr, fun _ => ⟨rfl, ?_⟩⟩
      rw [hq, Qualifiers.covers_iff_union_eq.1 hcov]
    · have hnew : (TypeForm.qualified base (own.union quals)).Fits g :=
        ⟨hfits.1, hfits.2.1, hfits.2.2.1, Qualifiers.isNone_union hfits.2.2.2⟩
      refine (Yields.type hnew).mono fun u g' hu => ⟨hu.1, fun h => absurd h hr, fun _ => ?_⟩
      rw [hq, Graph.unqualified, Graph.unqualified, Graph.quals, hu.2, hf]
      exact ⟨rfl, rfl⟩
  | _ =>
    have hr : ¬ g.isReference t = true := by rw [isReference, hf]; exact Bool.false_ne_true
    have hq : (g.type t).isQualified = false := by rw [hf]; rfl
    dsimp only
    split
    · next hnone =>
      refine .pure ⟨ht, fun h => absurd h hr, fun _ => ⟨rfl, ?_⟩⟩
      exact (Qualifiers.union_of_isNone hnone).symm
    · next hnone =>
      have hnew : (TypeForm.qualified t quals).Fits g :=
        ⟨ht, eq_false_of_ne_true hr, hq, eq_false_of_ne_true hnone⟩
      refine (Yields.type hnew).mono fun u g' hu => ⟨hu.1, fun h => absurd h hr, fun _ => ?_⟩
      rw [unqualified_of_plain hq, quals_of_plain hq, Qualifiers.none_union_of_isNone rfl,
        Graph.unqualified, Graph.quals, hu.2]
      exact ⟨rfl, rfl⟩

/-- Add qualifiers to a type, and then others to the result. -/
def qualifyTwice (t : TypeHandle) (first second : Qualifiers) : Build TypeHandle := do
  qualifiedType (← qualifiedType t first) second

/-- Adding qualifiers twice gives the tree with the qualifiers of both sets. -/
theorem Yields.qualifyTwice (hg : g.WellFormed) (first second : Qualifiers)
    (ht : g.contains t = true) :
    Yields g (qualifyTwice t first second) fun u g' =>
      g'.contains u = true ∧ g'.typeTree u = (g.typeTree t).qualify (first.union second) := by
  refine .bind hg (Settles.qualifiedType hg first ht).yields fun u g₁ _ hg₁ hu => ?_
  rw [← TypeTree.qualify_qualify, ← hu.2]
  exact (Settles.qualifiedType hg₁ second hu.1).yields

end Build

namespace Graph

/-- Qualifiers leave a type as it is if it is a reference or has them already, and only then. -/
theorem WellFormed.qualifiedType_eq_self_iff (hg : g.WellFormed) (quals : Qualifiers)
    (ht : g.contains t = true) : (Build.qualifiedType t quals g).1 = t ↔
      g.isReference t = true ∨ (g.quals t).covers quals = true := by
  obtain ⟨hgrow, hc, href, hparts⟩ := Build.Yields.qualifiedType_parts hg quals ht
  have hext := hgrow.extends
  cases hr : g.isReference t with
  | true => exact iff_of_true (href hr) (.inl rfl)
  | false =>
    obtain ⟨hbase, hquals⟩ := hparts hr
    rw [Qualifiers.covers_iff_union_eq, or_iff_right Bool.false_ne_true, ← hquals]
    constructor
    · intro h
      rw [h, hext.quals ht]
    · intro h
      refine (hgrow.wellFormed hg).eq_of_unqualified hc (hext.contains ht) ?_ ?_
      · rw [hbase, hext.unqualified ht]
      · rw [h, hext.quals ht]

/-- **The laws of adding qualifiers.**  No qualified type has a qualified base, a reference as its
base or an empty qualifier set.  Adding qualifiers twice gives the same type as adding their union,
whichever is done first; the type stays as it is exactly if it is a reference or has the qualifiers
already; and if it is no reference, the result has its unqualified type, and its qualifiers and
those that are added. -/
theorem Reachable.qualification_laws (hg : g.Reachable) :
    (∀ t base quals, g.contains t = true → g.type t = .qualified base quals →
      (g.type base).isQualified = false ∧ g.isReference base = false ∧ quals.isNone = false) ∧
    ∀ t q₁ q₂, g.contains t = true →
      ((∀ g', (Build.qualifyTwice t q₁ q₂ g).2.Evolves g' →
          (Build.qualifiedType t (q₁.union q₂) g').1 = (Build.qualifyTwice t q₁ q₂ g).1) ∧
        ∀ g', (Build.qualifiedType t (q₁.union q₂) g).2.Evolves g' →
          (Build.qualifyTwice t q₁ q₂ g').1 = (Build.qualifiedType t (q₁.union q₂) g).1) ∧
      ((Build.qualifiedType t q₁ g).1 = t ↔
        g.isReference t = true ∨ (g.quals t).covers q₁ = true) ∧
      (g.isReference t = false →
        (Build.qualifiedType t q₁ g).2.unqualified (Build.qualifiedType t q₁ g).1 =
          g.unqualified t ∧
        (Build.qualifiedType t q₁ g).2.quals (Build.qualifiedType t q₁ g).1 =
          (g.quals t).union q₁) := by
  have hw := hg.wellFormed
  refine ⟨fun t base quals ht hf => ?_, fun t q₁ q₂ ht => ⟨⟨fun g' hev => ?_, fun g' hev => ?_⟩,
    hw.qualifiedType_eq_self_iff q₁ ht, (Build.Yields.qualifiedType_parts hw q₁ ht).2.2.2⟩⟩
  · obtain ⟨-, hr, hq, hnone⟩ := hw.fits_of_type ht hf
    exact ⟨hq, hr, hnone⟩
  · have htwice := Build.Yields.qualifyTwice hw q₁ q₂ ht
    have hgrow := hev.grows (htwice.1.wellFormed hw)
    have hext := htwice.1.extends.trans hgrow.extends
    have honce := (Build.Settles.qualifiedType (hgrow.wellFormed (htwice.1.wellFormed hw))
      (q₁.union q₂) (hext.contains ht)).yields
    rw [hw.typeTree_extend hext ht] at honce
    exact hw.same_type htwice hgrow honce
  · have honce := (Build.Settles.qualifiedType hw (q₁.union q₂) ht).yields
    have hgrow := hev.grows (honce.1.wellFormed hw)
    have hext := honce.1.extends.trans hgrow.extends
    have htwice := Build.Yields.qualifyTwice (hgrow.wellFormed (honce.1.wellFormed hw)) q₁ q₂
      (hext.contains ht)
    rw [hw.typeTree_extend hext ht] at htwice
    exact hw.same_type honce hgrow htwice

/-- The graph of the types `const int` and `const int&`. -/
def constInt : Graph :=
  let g := (Build.intType (Graph.initial .empty 32)).2
  let g := (Build.qualifiedType ⟨3⟩ .const g).2
  (Build.referenceType ⟨4⟩ g).2

theorem constInt_reachable : constInt.Reachable := by
  have hint := (Reachable.initial .empty 32).operation (x := Build.intType) .intType
  have hconst := hint.operation (x := Build.qualifiedType ⟨3⟩ .const) (.qualifiedType .const rfl)
  exact hconst.operation (x := Build.referenceType ⟨4⟩) (.referenceType rfl)

/-- `const int` is in normal form, and with `volatile` added it becomes `const volatile int`, also
if `const` is added once more; `const int&` takes no qualifiers. -/
theorem qualification_laws_constInt :
    constInt.Reachable ∧
    (constInt.contains (⟨4⟩ : TypeHandle) = true ∧ constInt.type ⟨4⟩ = .qualified ⟨3⟩ .const ∧
      (constInt.type ⟨3⟩).isQualified = false ∧ constInt.isReference ⟨3⟩ = false ∧
      Qualifiers.const.isNone = false) ∧
    (Build.qualifiedType ⟨4⟩ (Qualifiers.volatile.union .const)
        (Build.qualifyTwice ⟨4⟩ .volatile .const constInt).2).1 =
      (Build.qualifyTwice ⟨4⟩ .volatile .const constInt).1 ∧
    (Build.qualifiedType ⟨4⟩ .volatile constInt).1 ≠ ⟨4⟩ ∧
    ((Build.qualifiedType ⟨4⟩ .volatile constInt).2.unqualified
        (Build.qualifiedType ⟨4⟩ .volatile constInt).1 = ⟨3⟩ ∧
      (Build.qualifiedType ⟨4⟩ .volatile constInt).2.quals
        (Build.qualifiedType ⟨4⟩ .volatile constInt).1 = Qualifiers.const.union .volatile) ∧
    (constInt.contains (⟨5⟩ : TypeHandle) = true ∧ constInt.isReference ⟨5⟩ = true ∧
      (Build.qualifiedType ⟨5⟩ .volatile constInt).1 = ⟨5⟩) := by
  obtain ⟨hnormal, hlaws⟩ := constInt_reachable.qualification_laws
  obtain ⟨⟨htwice, -⟩, hself, hparts⟩ := hlaws ⟨4⟩ .volatile .const rfl
  have hchanged : ¬ (constInt.isReference ⟨4⟩ = true ∨
      (constInt.quals ⟨4⟩).covers .volatile = true) := by decide +kernel
  exact ⟨constInt_reachable, ⟨rfl, rfl, hnormal ⟨4⟩ ⟨3⟩ .const rfl rfl⟩, htwice _ .refl,
    fun h => hchanged (hself.1 h), hparts rfl,
    rfl, rfl, (hlaws ⟨5⟩ .volatile .const rfl).2.1.2 (.inl rfl)⟩

end Graph
end SemanticCore
