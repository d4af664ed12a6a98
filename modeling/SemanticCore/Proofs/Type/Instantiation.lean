import SemanticCore.Proofs.Interning.Request
import SemanticCore.Proofs.Template.Replacement

/-!
# Instantiating type trees

`TypeTree.instantiate` puts trees in place of template parameters and keeps the result in normal
form: qualifiers that meet are merged, and qualifiers on what has become a reference disappear.
This is where it differs from `TypeTree.replace`, which only replaces.  The two agree as soon as
replacing happens to give a tree in normal form (`TypeTree.instantiate_eq_replace`), and every type
of a graph has such a tree (`Graph.WellFormed.normal_typeTree`).

The last part is about value types, that is types without one reference and then without top-level
qualifiers.  Taking the value type comes before or after instantiating, with the same result,
unless a reference was put in place of a parameter at the top (`TypeTree.value_instantiate`).
-/

set_option autoImplicit false
namespace SemanticCore

namespace Qualifiers

theorem union_assoc (a b c : Qualifiers) : (a.union b).union c = a.union (b.union c) := by
  simp only [union, Bool.or_assoc]

theorem union_of_isNone {a b : Qualifiers} (h : b.isNone = true) : a.union b = a := by
  rcases a with ⟨_ | _, _ | _⟩ <;> rcases b with ⟨_ | _, _ | _⟩ <;> first | rfl | cases h

theorem none_union_of_isNone {a b : Qualifiers} (h : a.isNone = true) : a.union b = b := by
  rcases a with ⟨_ | _, _ | _⟩ <;> rcases b with ⟨_ | _, _ | _⟩ <;> first | rfl | cases h

end Qualifiers

namespace TypeTree

/-! ## Induction over a tree -/

theorem sizeOf_lt_of_mem_children {t c : TypeTree} (h : c ∈ t.children) : sizeOf c < sizeOf t := by
  cases t with
  | function params ret =>
    rcases List.mem_append.1 h with hp | hr
    · have hlt := List.sizeOf_lt_of_mem hp
      simp only [function.sizeOf_spec]
      omega
    · rw [List.mem_singleton.1 hr]
      simp only [function.sizeOf_spec]
      omega
  | qualified base quals =>
    rw [List.mem_singleton.1 h]
    simp only [qualified.sizeOf_spec]
    omega
  | pointer t | reference t | sequence t =>
    rw [List.mem_singleton.1 h]
    simp only [pointer.sizeOf_spec, reference.sizeOf_spec, sequence.sizeOf_spec]
    omega
  | _ => cases h

/-- What holds of a tree whenever it holds of the trees directly inside it holds of every tree. -/
@[elab_as_elim]
theorem children_induction {motive : TypeTree → Prop}
    (step : ∀ t, (∀ c ∈ t.children, motive c) → motive t) (t : TypeTree) : motive t :=
  step t fun c _ => children_induction step c
termination_by sizeOf t
decreasing_by exact sizeOf_lt_of_mem_children ‹_›

/-! ## Normal form -/

def isReference : TypeTree → Bool
  | reference _ => true
  | _ => false

def isQualified : TypeTree → Bool
  | qualified _ _ => true
  | _ => false

/-- A qualified tree adds qualifiers to a tree that is neither qualified nor a reference, and so
does every tree inside it. -/
inductive Normal : TypeTree → Prop
  | intro {t : TypeTree}
    (hq : ∀ base quals, t = .qualified base quals →
      base.isReference = false ∧ base.isQualified = false ∧ quals.isNone = false)
    (hc : ∀ c ∈ t.children, Normal c) : Normal t

theorem Normal.child {t c : TypeTree} (h : t.Normal) (hc : c ∈ t.children) : c.Normal := by
  cases h with
  | intro _ hall => exact hall c hc

theorem Normal.qualified {base : TypeTree} {quals : Qualifiers}
    (h : (TypeTree.qualified base quals).Normal) :
    base.isReference = false ∧ base.isQualified = false ∧ quals.isNone = false := by
  cases h with
  | intro hq _ => exact hq base quals rfl

/-- Qualifiers on a tree that is neither qualified nor a reference. -/
theorem qualify_of_plain {t : TypeTree} (quals : Qualifiers) (hr : t.isReference = false)
    (hq : t.isQualified = false) :
    t.qualify quals = if quals.isNone then t else .qualified t quals := by
  cases t with
  | reference x => cases hr
  | qualified base own => cases hq
  | _ => rfl

theorem qualify_of_isNone {quals : Qualifiers} (h : quals.isNone = true) (t : TypeTree) :
    t.qualify quals = t := by
  cases t with
  | reference target => rfl
  | qualified base own => rw [qualify, Qualifiers.union_of_isNone h]
  | _ => rw [qualify_of_plain quals rfl rfl, if_pos h]

/-- Qualifiers that are added one after the other are added together. -/
theorem qualify_qualify (a b : Qualifiers) (t : TypeTree) :
    (t.qualify a).qualify b = t.qualify (a.union b) := by
  cases ha : a.isNone with
  | true => rw [qualify_of_isNone ha, Qualifiers.none_union_of_isNone ha]
  | false =>
    have hunion := Qualifiers.isNone_union (b := b) ha
    cases t with
    | reference target => rfl
    | qualified base own => rw [qualify, qualify, qualify, Qualifiers.union_assoc]
    | _ =>
      rw [qualify_of_plain a rfl rfl, qualify_of_plain (a.union b) rfl rfl, ha, hunion]
      rfl

/-! ## Instantiation -/

/-- The tree with template parameters replaced as `σ` says, in normal form. -/
def instantiate (σ : DeclHandle → Option TypeTree) : TypeTree → TypeTree
  | typename d => (σ d).getD (.typename d)
  | function params ret => .function (params.map fun t => t.instantiate σ) (ret.instantiate σ)
  | qualified base quals => (base.instantiate σ).qualify quals
  | pointer t => .pointer (t.instantiate σ)
  | reference t => .reference (t.instantiate σ)
  | sequence t => .sequence (t.instantiate σ)
  | t => t

variable {σ : DeclHandle → Option TypeTree} {ds : List DeclHandle} {θ : DeclHandle → TypeTree}

/-- **Instantiating is replacing if that gives a tree in normal form.** -/
theorem instantiate_eq_replace {t : TypeTree} (hn : (t.replace ds θ).Normal)
    (hσ : ∀ d, t.Mentions d → σ d = if d ∈ ds then some (θ d) else none) :
    t.instantiate σ = t.replace ds θ := by
  induction t using children_induction with
  | step t ih =>
    cases t with
    | typename d =>
      rw [instantiate, replace, hσ d .here]
      split <;> rfl
    | function params ret =>
      rw [replace] at hn
      have hparams : ∀ p ∈ params, p.instantiate σ = p.replace ds θ := fun p hp =>
        ih p (List.mem_append_left _ hp)
          (hn.child (List.mem_append_left _ (List.mem_map_of_mem hp)))
          fun d hd => hσ d (.child (List.mem_append_left _ hp) hd)
      have hret : ret ∈ (TypeTree.function params ret).children :=
        List.mem_append_right _ List.mem_cons_self
      rw [instantiate, replace, List.map_congr_left hparams, ih ret hret
        (hn.child (List.mem_append_right _ List.mem_cons_self)) fun d hd => hσ d (.child hret hd)]
    | qualified base quals =>
      rw [replace] at hn
      obtain ⟨hr, hq, hnone⟩ := hn.qualified
      rw [instantiate, replace, ih base List.mem_cons_self (hn.child List.mem_cons_self)
        fun d hd => hσ d (.child List.mem_cons_self hd), qualify_of_plain quals hr hq, hnone]
      rfl
    | pointer x | reference x | sequence x =>
      rw [replace] at hn
      rw [instantiate, replace, ih x List.mem_cons_self (hn.child List.mem_cons_self)
        fun d hd => hσ d (.child List.mem_cons_self hd)]
    | _ => rw [instantiate, replace] <;> simp

theorem replace_nil (θ : DeclHandle → TypeTree) (t : TypeTree) : t.replace [] θ = t := by
  induction t using children_induction with
  | step t ih =>
    cases t with
    | function params ret =>
      have hparams : ∀ p ∈ params, p.replace [] θ = id p := fun p hp =>
        ih p (List.mem_append_left _ hp)
      rw [replace, List.map_congr_left hparams, List.map_id,
        ih ret (List.mem_append_right _ List.mem_cons_self)]
    | qualified base quals => rw [replace, ih base List.mem_cons_self]
    | pointer x | reference x | sequence x => rw [replace, ih x List.mem_cons_self]
    | typename d => rw [replace, if_neg List.not_mem_nil]
    | _ => rw [replace] <;> simp

/-- A tree in normal form without parameters stays as it is. -/
theorem instantiate_of_not_mentions {t : TypeTree} (hn : t.Normal)
    (h : ∀ d, ¬ t.Mentions d) : t.instantiate σ = t := by
  have hreplace := replace_nil (fun _ => .void) t
  rw [← hreplace] at hn
  exact (instantiate_eq_replace hn fun d hd => absurd hd (h d)).trans hreplace

/-! ## Value types -/

/-- The tree without one reference. -/
def nonReference : TypeTree → TypeTree
  | reference t => t
  | t => t

/-- The tree without its top-level qualifiers. -/
def unqualified : TypeTree → TypeTree
  | qualified base _ => base
  | t => t

/-- The tree without one reference and then without top-level qualifiers. -/
def value (t : TypeTree) : TypeTree :=
  t.nonReference.unqualified

theorem unqualified_of_not_qualified {t : TypeTree} (hq : t.isQualified = false) :
    t.unqualified = t := by
  cases t with
  | qualified base quals => cases hq
  | _ => rfl

theorem value_of_plain {t : TypeTree} (hr : t.isReference = false) (hq : t.isQualified = false) :
    t.value = t := by
  cases t with
  | reference x => cases hr
  | qualified base quals => cases hq
  | _ => rfl

/-- Qualifiers are added and taken away again. -/
theorem unqualified_qualify {t : TypeTree} (quals : Qualifiers) (hq : t.isQualified = false) :
    (t.qualify quals).unqualified = t := by
  cases hr : t.isReference with
  | true =>
    cases t with
    | reference x => rfl
    | _ => cases hr
  | false =>
    rw [qualify_of_plain quals hr hq]
    split
    · exact unqualified_of_not_qualified hq
    · rfl

/-- A reference is no part of its own target. -/
theorem value_ne_of_isReference {t : TypeTree} (hr : t.isReference = true) : t.value ≠ t := by
  cases t with
  | reference x =>
    intro h
    have hle : sizeOf x.unqualified ≤ sizeOf x := by
      cases x with
      | qualified base quals => simp only [unqualified, qualified.sizeOf_spec]; omega
      | _ => exact Nat.le_refl _
    have heq : x.unqualified = .reference x := h
    rw [heq, reference.sizeOf_spec] at hle
    omega
  | _ => cases hr

/-- **Taking the value type comes before or after instantiating**, with the same result, unless a
reference is put at the top of a tree that was none. -/
theorem value_instantiate {t : TypeTree} (hq : (t.value.instantiate σ).isQualified = false)
    (hr : t.isReference = true ∨ (t.value.instantiate σ).isReference = false) :
    (t.instantiate σ).value = t.value.instantiate σ := by
  cases t with
  | reference x =>
    cases x with
    | qualified base quals =>
      rw [instantiate, instantiate]
      exact unqualified_qualify quals hq
    | _ =>
      rw [instantiate]
      exact unqualified_of_not_qualified hq
  | qualified base quals =>
    have hplain := hr.resolve_left Bool.false_ne_true
    rw [instantiate]
    change (base.instantiate σ).isReference = false at hplain
    change (base.instantiate σ).isQualified = false at hq
    rw [qualify_of_plain quals hplain hq]
    split
    · exact value_of_plain hplain hq
    · rfl
  | _ => exact value_of_plain (hr.resolve_left Bool.false_ne_true) hq

/-- In the remaining case qualifiers are dropped, and what is left is the reference. -/
theorem instantiate_of_reference {t : TypeTree} (ht : t.isReference = false)
    (hr : (t.value.instantiate σ).isReference = true) :
    t.instantiate σ = t.value.instantiate σ := by
  cases t with
  | reference x => cases ht
  | qualified base quals =>
    rw [instantiate]
    change (base.instantiate σ).isReference = true at hr
    change (base.instantiate σ).qualify quals = base.instantiate σ
    cases hb : base.instantiate σ with
    | reference x => rfl
    | _ => rw [hb] at hr; cases hr
  | _ => rfl

end TypeTree

/-! ## The trees of a graph -/

section Tree

variable {part : TypeHandle → TypeTree}

theorem TypeForm.isReference_tree (f : TypeForm) : (f.tree part).isReference = f.isReference := by
  cases f <;> rfl

theorem TypeForm.isQualified_tree (f : TypeForm) : (f.tree part).isQualified = f.isQualified := by
  cases f <;> rfl

end Tree

namespace Graph

variable {g : Graph}

theorem WellFormed.isReference_typeTree (hg : g.WellFormed) {t : TypeHandle}
    (ht : g.contains t = true) : (g.typeTree t).isReference = (g.type t).isReference := by
  rw [hg.typeTree_eq ht, TypeForm.isReference_tree]

theorem WellFormed.isQualified_typeTree (hg : g.WellFormed) {t : TypeHandle}
    (ht : g.contains t = true) : (g.typeTree t).isQualified = (g.type t).isQualified := by
  rw [hg.typeTree_eq ht, TypeForm.isQualified_tree]

/-- **Every type of a graph has a tree in normal form.** -/
theorem WellFormed.normal_typeTree (hg : g.WellFormed) {t : TypeHandle} (ht : g.contains t = true) :
    (g.typeTree t).Normal := by
  obtain ⟨i⟩ := t
  induction i using Nat.strongRecOn with
  | ind i ih =>
    have hfits := (hg.placed _ ht).1
    refine .intro (fun base quals h => ?_) fun c hc => ?_
    · rw [hg.typeTree_eq ht] at h
      cases hf : g.type ⟨i⟩ with
      | qualified b q =>
        rw [hf] at h hfits
        obtain ⟨rfl, rfl⟩ := TypeTree.qualified.inj h
        rw [hg.isReference_typeTree hfits.1, hg.isQualified_typeTree hfits.1]
        exact hfits.2
      | _ => rw [hf] at h; cases h
    · rw [hg.typeTree_eq ht, TypeForm.children_tree] at hc
      obtain ⟨s, hs, rfl⟩ := List.mem_map.1 hc
      exact ih s.index (hg.component_lt ht hs) (hg.contains_component ht hs)

theorem WellFormed.typeTree_nonReference (hg : g.WellFormed) {t : TypeHandle}
    (ht : g.contains t = true) : g.typeTree (g.nonReference t) = (g.typeTree t).nonReference := by
  rw [hg.typeTree_eq ht, nonReference]
  cases hf : g.type t with
  | reference x => rfl
  | _ => rw [hg.typeTree_eq ht, hf]; rfl

theorem WellFormed.typeTree_unqualified (hg : g.WellFormed) {t : TypeHandle}
    (ht : g.contains t = true) : g.typeTree (g.unqualified t) = (g.typeTree t).unqualified := by
  rw [hg.typeTree_eq ht, unqualified]
  cases hf : g.type t with
  | qualified base quals => rfl
  | _ => rw [hg.typeTree_eq ht, hf]; rfl

theorem WellFormed.typeTree_valueType (hg : g.WellFormed) {t : TypeHandle}
    (ht : g.contains t = true) : g.typeTree (g.valueType t) = (g.typeTree t).value := by
  rw [valueType, hg.typeTree_unqualified (hg.contains_nonReference ht),
    hg.typeTree_nonReference ht, TypeTree.value]

/-! ## Without a reference, without qualifiers -/

theorem nonReference_of_plain {t : TypeHandle} (hr : g.isReference t = false) :
    g.nonReference t = t := by
  rw [isReference] at hr
  rw [nonReference]
  cases hf : g.type t with
  | reference a => rw [hf] at hr; cases hr
  | _ => rfl

theorem unqualified_of_plain {t : TypeHandle} (hq : (g.type t).isQualified = false) :
    g.unqualified t = t := by
  rw [unqualified]
  cases hf : g.type t with
  | qualified base own => rw [hf] at hq; cases hq
  | _ => rfl

/-- A type without its top-level qualifiers has none. -/
theorem WellFormed.isQualified_unqualified (hg : g.WellFormed) {t : TypeHandle}
    (ht : g.contains t = true) : (g.type (g.unqualified t)).isQualified = false := by
  have hfits := (hg.placed t ht).1
  rw [unqualified]
  cases hf : g.type t with
  | qualified base quals => rw [hf] at hfits; exact hfits.2.2.1
  | _ => simp only [hf]; rfl

/-- Qualifiers are never put on a reference, so a type is one without them exactly if it is one. -/
theorem WellFormed.isReference_unqualified (hg : g.WellFormed) {t : TypeHandle}
    (ht : g.contains t = true) : g.isReference (g.unqualified t) = g.isReference t := by
  have hfits := (hg.placed t ht).1
  cases hf : g.type t with
  | qualified base quals =>
    rw [hf] at hfits
    have hbase : g.isReference base = false := hfits.2.1
    have ht : g.isReference t = false := by rw [isReference, hf]; rfl
    rw [unqualified, hf, ht]
    exact hbase
  | _ => rw [unqualified_of_plain (by rw [hf]; rfl)]

end Graph
end SemanticCore
