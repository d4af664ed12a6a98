import SemanticCore.Proofs.Template.Matching
import SemanticCore.Proofs.Type.Instantiation

/-!
# Types up to placeholders

A placeholder stands for a type that is not known yet.  Two type trees are consistent if they differ
only where one of them has a placeholder, with or without qualifiers, and the other one any tree at
all.  An expression that is deferred and the same expression once it is resolved have consistent
types, and all that is computed from types goes on being consistent:

* `TypeTree.Consistent.value` — value types;
* `TypeTree.Consistent.of_replace` — what solves the equations of a call;
* `TypeTree.Consistent.instantiate` — types in which parameters are replaced.

Consistency is reflexive and symmetric, and not transitive.  On types without placeholders it is
equality (`TypeTree.Consistent.eq_of_complete`), and the flags of a type tell whether it has any
(`Graph.WellFormed.placeholder_iff`).
-/

set_option autoImplicit false
namespace SemanticCore

/-! ## Consistent trees -/

namespace TypeTree

/-- The tree is a placeholder, apart from its qualifiers. -/
inductive IsOpen : TypeTree → Prop
  | auto (n : UInt32) : IsOpen (.auto n)
  | declauto (n : UInt32) : IsOpen (.declauto n)
  | qualified {base : TypeTree} (quals : Qualifiers) (h : IsOpen base) :
    IsOpen (.qualified base quals)

/-- The trees differ only where one of them has a placeholder. -/
inductive Consistent : TypeTree → TypeTree → Prop
  | refl (t : TypeTree) : Consistent t t
  | left {s : TypeTree} (hs : s.IsOpen) (t : TypeTree) : Consistent s t
  | right (s : TypeTree) {t : TypeTree} (ht : t.IsOpen) : Consistent s t
  | function {ps qs : List TypeTree} {r u : TypeTree} (hlen : ps.length = qs.length)
    (hparams : ∀ e ∈ ps.zip qs, Consistent e.1 e.2) (hret : Consistent r u) :
    Consistent (.function ps r) (.function qs u)
  | qualified {s t : TypeTree} (quals : Qualifiers) (h : Consistent s t) :
    Consistent (.qualified s quals) (.qualified t quals)
  | pointer {s t : TypeTree} (h : Consistent s t) : Consistent (.pointer s) (.pointer t)
  | reference {s t : TypeTree} (h : Consistent s t) : Consistent (.reference s) (.reference t)
  | sequence {s t : TypeTree} (h : Consistent s t) : Consistent (.sequence s) (.sequence t)

variable {s t : TypeTree} {σ σ' : DeclHandle → Option TypeTree} {ds : List DeclHandle}
  {θ θ' : DeclHandle → TypeTree}

/-! ## The parts of consistent trees -/

theorem IsOpen.child (h : s.IsOpen) {c : TypeTree} (hc : c ∈ s.children) : c.IsOpen := by
  cases h with
  | auto n | declauto n => cases hc
  | qualified quals h => exact List.mem_singleton.1 hc ▸ h

/-- The trees directly inside consistent trees are consistent, also where these are placeholders. -/
theorem Consistent.zip_children (h : s.Consistent t) {e : TypeTree × TypeTree}
    (he : e ∈ s.children.zip t.children) : e.1.Consistent e.2 := by
  cases h with
  | refl t =>
    obtain ⟨i, hi⟩ := List.mem_iff_getElem?.1 he
    obtain ⟨hl, hr⟩ := List.getElem?_zip_eq_some.1 hi
    rw [Option.some.inj (hl.symm.trans hr)]
    exact .refl _
  | left hs t => exact .left (hs.child (List.of_mem_zip he).1) _
  | right s ht => exact .right _ (ht.child (List.of_mem_zip he).2)
  | function hlen hparams hret =>
    rw [children, children, List.zip_append hlen] at he
    rcases List.mem_append.1 he with hp | hr
    · exact hparams e hp
    · exact List.mem_singleton.1 hr ▸ hret
  | qualified quals h => exact List.mem_singleton.1 he ▸ h
  | pointer h | reference h | sequence h => exact List.mem_singleton.1 he ▸ h

/-! ## What keeps trees consistent -/

theorem IsOpen.unqualified (h : s.IsOpen) : s.unqualified.IsOpen := by
  cases h with
  | auto n => exact .auto n
  | declauto n => exact .declauto n
  | qualified quals h => exact h

theorem IsOpen.qualify (h : s.IsOpen) (quals : Qualifiers) : (s.qualify quals).IsOpen := by
  cases h with
  | auto n | declauto n =>
    rw [qualify_of_plain quals rfl rfl]
    split
    · constructor
    · exact .qualified quals (by constructor)
  | qualified own h => exact .qualified _ h

theorem Consistent.unqualified (h : s.Consistent t) : s.unqualified.Consistent t.unqualified := by
  cases h with
  | refl t => exact .refl _
  | left hs t => exact .left hs.unqualified _
  | right s ht => exact .right _ ht.unqualified
  | function hlen hparams hret => exact .function hlen hparams hret
  | qualified quals h => exact h
  | pointer h => exact .pointer h
  | reference h => exact .reference h
  | sequence h => exact .sequence h

/-- **Consistent trees have consistent value types.** -/
theorem Consistent.value (h : s.Consistent t) : s.value.Consistent t.value := by
  have hopen : ∀ {u : TypeTree}, u.IsOpen → u.value.IsOpen := fun hu => by
    cases hu with
    | auto n => exact .auto n
    | declauto n => exact .declauto n
    | qualified quals h => exact h
  cases h with
  | refl t => exact .refl _
  | left hs t => exact .left (hopen hs) _
  | right s ht => exact .right _ (hopen ht)
  | function hlen hparams hret => exact .function hlen hparams hret
  | qualified quals h => exact h
  | pointer h => exact .pointer h
  | reference h => exact h.unqualified
  | sequence h => exact .sequence h

theorem Consistent.qualify (h : s.Consistent t) (quals : Qualifiers) :
    (s.qualify quals).Consistent (t.qualify quals) := by
  have hplain : ∀ {u v : TypeTree}, u.Consistent v → u.isReference = false →
      u.isQualified = false → v.isReference = false → v.isQualified = false →
      (u.qualify quals).Consistent (v.qualify quals) := fun huv hur huq hvr hvq => by
    rw [qualify_of_plain quals hur huq, qualify_of_plain quals hvr hvq]
    split
    · exact huv
    · exact .qualified quals huv
  cases h with
  | refl t => exact .refl _
  | left hs t => exact .left (hs.qualify quals) _
  | right s ht => exact .right _ (ht.qualify quals)
  | function hlen hparams hret => exact hplain (.function hlen hparams hret) rfl rfl rfl rfl
  | qualified own h => exact .qualified _ h
  | pointer h => exact hplain (.pointer h) rfl rfl rfl rfl
  | reference h => exact .reference h
  | sequence h => exact hplain (.sequence h) rfl rfl rfl rfl

/-- **Putting consistent trees in place of the parameters gives consistent trees.** -/
theorem Consistent.instantiate (t : TypeTree)
    (h : ∀ d, Option.Rel Consistent (σ d) (σ' d)) :
    (t.instantiate σ).Consistent (t.instantiate σ') := by
  induction t using children_induction with
  | step t ih =>
    cases t with
    | typename d =>
      rw [TypeTree.instantiate, TypeTree.instantiate]
      have hd := h d
      generalize σ d = x, σ' d = y at hd
      cases hd with
      | none => exact .refl _
      | some hxy => exact hxy
    | function params ret =>
      rw [TypeTree.instantiate, TypeTree.instantiate]
      refine .function (by rw [List.length_map, List.length_map]) (fun e he => ?_)
        (ih ret (List.mem_append_right _ List.mem_cons_self))
      rw [List.zip_map'] at he
      obtain ⟨p, hp, rfl⟩ := List.mem_map.1 he
      exact ih p (List.mem_append_left _ hp)
    | qualified base quals =>
      rw [TypeTree.instantiate, TypeTree.instantiate]
      exact (ih base List.mem_cons_self).qualify quals
    | pointer x =>
      rw [TypeTree.instantiate, TypeTree.instantiate]
      exact .pointer (ih x List.mem_cons_self)
    | reference x =>
      rw [TypeTree.instantiate, TypeTree.instantiate]
      exact .reference (ih x List.mem_cons_self)
    | sequence x =>
      rw [TypeTree.instantiate, TypeTree.instantiate]
      exact .sequence (ih x List.mem_cons_self)
    | _ => simpa only [TypeTree.instantiate] using Consistent.refl _

/-! ## Solutions of consistent equations -/

theorem children_replace (h : ∀ d, t ≠ .typename d) :
    (t.replace ds θ).children = t.children.map fun c => c.replace ds θ := by
  cases t with
  | typename d => exact absurd rfl (h d)
  | function params ret => simp [replace, children]
  | _ => simp only [replace, children, List.map_cons, List.map_nil]

/-- **What is put in place of a parameter that occurs is consistent if the results are.** -/
theorem Consistent.of_replace {d : DeclHandle} (hd : d ∈ ds) (ht : t.Mentions d)
    (h : (t.replace ds θ).Consistent (t.replace ds θ')) : (θ d).Consistent (θ' d) := by
  induction ht with
  | here => rwa [replace, replace, if_pos hd, if_pos hd] at h
  | @child t c hc _ ih =>
    have hname : ∀ d', t ≠ .typename d' := by
      rintro d' rfl
      cases hc
    refine ih (h.zip_children (e := (c.replace ds θ, c.replace ds θ')) ?_)
    rw [children_replace hname, children_replace hname, List.zip_map']
    exact List.mem_map_of_mem hc

/-! ## Trees without placeholders -/

/-- Some placeholder occurs in the tree. -/
inductive HasPlaceholder : TypeTree → Prop
  | auto (n : UInt32) : HasPlaceholder (.auto n)
  | declauto (n : UInt32) : HasPlaceholder (.declauto n)
  | child {t c : TypeTree} (hc : c ∈ t.children) (h : HasPlaceholder c) : HasPlaceholder t

theorem IsOpen.hasPlaceholder (h : s.IsOpen) : s.HasPlaceholder := by
  induction h with
  | auto n => exact .auto n
  | declauto n => exact .declauto n
  | qualified quals _ ih => exact .child List.mem_cons_self ih

/-- **Trees without placeholders are consistent only if they are equal.** -/
theorem Consistent.eq_of_complete (h : s.Consistent t) (hs : ¬ s.HasPlaceholder)
    (ht : ¬ t.HasPlaceholder) : s = t := by
  have hpart : ∀ {u c : TypeTree}, ¬ u.HasPlaceholder → c ∈ u.children → ¬ c.HasPlaceholder :=
    fun hu hc h => hu (.child hc h)
  induction h with
  | refl t => rfl
  | left hopen t => exact absurd hopen.hasPlaceholder hs
  | right s hopen => exact absurd hopen.hasPlaceholder ht
  | @function ps qs r u hlen _ _ ihparams ihret =>
    have hr : r = u := ihret (hpart hs (List.mem_append_right _ List.mem_cons_self))
      (hpart ht (List.mem_append_right _ List.mem_cons_self))
    have hps : ps.map id = qs.map id := (Graph.map_eq_map_iff_zip hlen).2 fun e he =>
      ihparams e he (hpart hs (List.mem_append_left _ (List.of_mem_zip he).1))
        (hpart ht (List.mem_append_left _ (List.of_mem_zip he).2))
    rw [List.map_id, List.map_id] at hps
    rw [hps, hr]
  | qualified quals _ ih =>
    rw [ih (hpart hs List.mem_cons_self) (hpart ht List.mem_cons_self)]
  | pointer _ ih | reference _ ih | sequence _ ih =>
    rw [ih (hpart hs List.mem_cons_self) (hpart ht List.mem_cons_self)]

end TypeTree

/-! ## The types of a graph -/

theorem TypeForm.hasPlaceholder_tree {part : TypeHandle → TypeTree} {f : TypeForm} :
    (f.tree part).HasPlaceholder ↔
      f.ownFlags.placeholder = true ∨ ∃ t ∈ f.components, (part t).HasPlaceholder := by
  constructor
  · intro h
    generalize htree : f.tree part = tree at h
    cases h with
    | auto n | declauto n => cases f <;> cases htree; exact .inl rfl
    | child hc h =>
      subst htree
      rw [children_tree] at hc
      obtain ⟨t, ht, rfl⟩ := List.mem_map.1 hc
      exact .inr ⟨t, ht, h⟩
  · rintro (hown | ⟨t, ht, h⟩)
    · cases f with
      | auto n => exact .auto n
      | declauto n => exact .declauto n
      | _ => cases hown
    · exact .child (children_tree f ▸ List.mem_map_of_mem ht) h

namespace Graph

variable {g : Graph}

/-- **The flags of a type tell whether a placeholder occurs anywhere inside it.** -/
theorem WellFormed.placeholder_iff (hg : g.WellFormed) {t : TypeHandle}
    (ht : g.contains t = true) :
    (g.typeFlags t).placeholder = true ↔ (g.typeTree t).HasPlaceholder :=
  hg.flag_iff rfl (fun _ _ => rfl) (fun _ _ => TypeForm.hasPlaceholder_tree) ht

/-- **Consistent types are the same if neither is dependent.** -/
theorem WellFormed.eq_of_consistent (hg : g.WellFormed) {s t : TypeHandle}
    (hs : g.contains s = true) (ht : g.contains t = true)
    (h : (g.typeTree s).Consistent (g.typeTree t)) (hsd : g.isDependent s = false)
    (htd : g.isDependent t = false) : s = t := by
  have hcomplete : ∀ {u : TypeHandle}, g.contains u = true → g.isDependent u = false →
      ¬ (g.typeTree u).HasPlaceholder := fun hu hdep hplace => by
    rw [isDependent, TypeFlags.isDependent, (hg.placeholder_iff hu).2 hplace] at hdep
    cases hdep
  exact hg.typeTree_injective hs ht (h.eq_of_complete (hcomplete hs hsd) (hcomplete ht htd))

end Graph
end SemanticCore
