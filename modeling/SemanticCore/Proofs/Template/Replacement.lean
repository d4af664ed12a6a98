import SemanticCore.Proofs.Type.Tree
import SemanticCore.Type.Category

/-!
# Replacing template parameters in a type

`TypeTree.replace` puts trees into a tree in place of the template parameters of a list, and does
nothing else: no qualifiers are merged and no node is normalized.  It is what matching is about, so
this file has what matching needs to know of it, read off the form of a type:

* where a parameter occurs (`TypeTree.Mentions`), and that the flags of a type tell whether any does
  (`Graph.WellFormed.parameter_iff`);
* what replacement does to the tree of a form (`TypeForm.replace_tree`);
* that two trees of the same construct are equal exactly if their parts are
  (`TypeForm.Alike.tree_eq_iff`).
-/

set_option autoImplicit false
namespace SemanticCore

/-! ## Trees -/

namespace TypeTree

/-- The trees directly inside a tree. -/
def children : TypeTree → List TypeTree
  | function params ret => params ++ [ret]
  | qualified base _ => [base]
  | pointer t | reference t | sequence t => [t]
  | _ => []

/-- The template parameter occurs somewhere in the tree. -/
inductive Mentions (d : DeclHandle) : TypeTree → Prop
  | here : Mentions d (.typename d)
  | child {t c : TypeTree} (hc : c ∈ t.children) (h : Mentions d c) : Mentions d t

/-- The tree with each of the parameters `ds` replaced. -/
def replace (ds : List DeclHandle) (θ : DeclHandle → TypeTree) : TypeTree → TypeTree
  | typename d => if d ∈ ds then θ d else .typename d
  | function params ret => .function (params.map fun t => t.replace ds θ) (ret.replace ds θ)
  | qualified base quals => .qualified (base.replace ds θ) quals
  | pointer t => .pointer (t.replace ds θ)
  | reference t => .reference (t.replace ds θ)
  | sequence t => .sequence (t.replace ds θ)
  | t => t

end TypeTree

/-! ## Forms -/

namespace TypeForm

variable {part part' : TypeHandle → TypeTree} {ds : List DeclHandle} {θ : DeclHandle → TypeTree}

theorem children_tree (f : TypeForm) : (f.tree part).children = f.components.map part := by
  cases f with
  | function params ret => simp [tree, components, TypeTree.children]
  | _ => rfl

theorem mentions_tree {d : DeclHandle} {f : TypeForm} :
    (f.tree part).Mentions d ↔ f = .typename d ∨ ∃ t ∈ f.components, (part t).Mentions d := by
  constructor
  · intro h
    generalize htree : f.tree part = tree at h
    cases h with
    | here => cases f <;> cases htree; exact .inl rfl
    | child hc h =>
      subst htree
      rw [children_tree] at hc
      obtain ⟨t, ht, rfl⟩ := List.mem_map.1 hc
      exact .inr ⟨t, ht, h⟩
  · rintro (rfl | ⟨t, ht, h⟩)
    · exact .here
    · exact .child (children_tree f ▸ List.mem_map_of_mem ht) h

/-- Replacement goes into the components of a form, unless the form is itself replaced. -/
theorem replace_tree {f : TypeForm} (hf : ∀ d ∈ ds, f ≠ .typename d) :
    (f.tree part).replace ds θ = f.tree fun t => (part t).replace ds θ := by
  cases f with
  | typename d =>
    rw [tree, TypeTree.replace, if_neg fun hd => hf d hd rfl, tree]
  | function params ret =>
    rw [tree, TypeTree.replace, tree, List.map_map]
    rfl
  | _ => simp only [tree, TypeTree.replace]

theorem replace_typename {d : DeclHandle} (hd : d ∈ ds) :
    ((typename d).tree part).replace ds θ = θ d := by
  rw [tree, TypeTree.replace, if_pos hd]

/-- The two forms are the same compound construct, with as many components. -/
inductive Alike : TypeForm → TypeForm → Prop
  | function {ps qs : List TypeHandle} (r s : TypeHandle) (h : ps.length = qs.length) :
      Alike (.function ps r) (.function qs s)
  | qualified (s t : TypeHandle) (quals : Qualifiers) :
      Alike (.qualified s quals) (.qualified t quals)
  | pointer (s t : TypeHandle) : Alike (.pointer s) (.pointer t)
  | reference (s t : TypeHandle) : Alike (.reference s) (.reference t)
  | sequence (s t : TypeHandle) : Alike (.sequence s) (.sequence t)

theorem Alike.refl {f : TypeForm} (hf : f.components ≠ []) : f.Alike f := by
  cases f with
  | function ps r => exact .function r r rfl
  | qualified t q => exact .qualified t t q
  | pointer t => exact .pointer t t
  | reference t => exact .reference t t
  | sequence t => exact .sequence t t
  | _ => exact absurd rfl hf

theorem Alike.length_eq {f f' : TypeForm} (h : f.Alike f') :
    f.components.length = f'.components.length := by
  cases h with
  | function r s h => simp [components, h]
  | _ => rfl

/-- **Trees of one construct are equal exactly if the trees of their components are.** -/
theorem Alike.tree_eq_iff {f f' : TypeForm} (h : f.Alike f') (part part' : TypeHandle → TypeTree) :
    f.tree part = f'.tree part' ↔ f.components.map part = f'.components.map part' := by
  cases h with
  | function r s h =>
    rw [tree, tree, TypeTree.function.injEq, components, components, List.map_append,
      List.map_append]
    constructor
    · rintro ⟨hps, hr⟩
      rw [hps, List.map_singleton, List.map_singleton, hr]
    · intro heq
      obtain ⟨hps, hr⟩ := List.append_inj' heq rfl
      exact ⟨hps, (List.cons.inj hr).1⟩
  | _ => simp [tree, components]

/-- A compound form has the tree only of forms that are alike. -/
theorem alike_of_tree_eq {f f' : TypeForm} (h : f.tree part = f'.tree part')
    (hf : f.components ≠ []) : f.Alike f' := by
  cases f with
  | function ps r =>
    cases f' with
    | function qs s =>
      refine .function r s ?_
      have hlen := congrArg List.length (TypeTree.function.inj h).1
      rwa [List.length_map, List.length_map] at hlen
    | _ => cases h
  | qualified t q =>
    cases f' with
    | qualified t' q' =>
      obtain ⟨-, rfl⟩ := TypeTree.qualified.inj h
      exact .qualified t t' q
    | _ => cases h
  | pointer t =>
    cases f' with
    | pointer t' => exact .pointer t t'
    | _ => cases h
  | reference t =>
    cases f' with
    | reference t' => exact .reference t t'
    | _ => cases h
  | sequence t =>
    cases f' with
    | sequence t' => exact .sequence t t'
    | _ => cases h
  | _ => exact absurd rfl hf

end TypeForm

/-! ## Handles -/

/-- A flag is set in a union exactly if it is set in some member. -/
theorem TypeFlags.flag_unions {flag : TypeFlags → Bool} (hnone : flag none = false)
    (hunion : ∀ a b, flag (a.union b) = (flag a || flag b)) (fs : List TypeFlags) :
    flag (unions fs) = true ↔ ∃ f ∈ fs, flag f = true := by
  have key : ∀ acc : TypeFlags, flag (fs.foldl union acc) = true ↔
      flag acc = true ∨ ∃ f ∈ fs, flag f = true := by
    induction fs with
    | nil => simp
    | cons f fs ih =>
      intro acc
      rw [List.foldl_cons, ih, hunion, Bool.or_eq_true]
      simp [or_assoc]
  exact (key none).trans (or_iff_right_of_imp fun h => by rw [hnone] at h; cases h)

theorem TypeForm.parameter_ownFlags {f : TypeForm} :
    f.ownFlags.parameter = true ↔ ∃ d, f = .typename d := by
  cases f <;> simp [ownFlags, TypeFlags.none]

namespace Graph

variable {g : Graph}

theorem WellFormed.mentions_iff (hg : g.WellFormed) {t : TypeHandle} {d : DeclHandle}
    (ht : g.contains t = true) : (g.typeTree t).Mentions d ↔
      g.type t = .typename d ∨ ∃ s ∈ (g.type t).components, (g.typeTree s).Mentions d := by
  rw [hg.typeTree_eq ht, TypeForm.mentions_tree]

/-- A flag tells whether a type has a property, if the property passes from the components of a type
to the type and the flag is set in the types that have it by themselves. -/
theorem WellFormed.flag_iff (hg : g.WellFormed) {flag : TypeFlags → Bool} {P : TypeTree → Prop}
    (hnone : flag .none = false) (hunion : ∀ a b, flag (a.union b) = (flag a || flag b))
    (hP : ∀ (f : TypeForm) (part : TypeHandle → TypeTree), P (f.tree part) ↔
      flag f.ownFlags = true ∨ ∃ s ∈ f.components, P (part s)) {t : TypeHandle}
    (ht : g.contains t = true) : flag (g.typeFlags t) = true ↔ P (g.typeTree t) := by
  obtain ⟨i⟩ := t
  induction i using Nat.strongRecOn with
  | ind i ih =>
    have hflags := (hg.placed _ ht).2.2
    rw [hflags, flagsOf, hunion, Bool.or_eq_true, TypeFlags.flag_unions hnone hunion,
      hg.typeTree_eq ht, hP]
    simp only [List.mem_map, exists_exists_and_eq_and]
    refine or_congr_right (exists_congr fun s => and_congr_right fun hs => ?_)
    exact ih s.index (hg.component_lt ht hs) (hg.contains_component ht hs)

/-- **The flags of a type tell whether a template parameter occurs anywhere inside it.** -/
theorem WellFormed.parameter_iff (hg : g.WellFormed) {t : TypeHandle}
    (ht : g.contains t = true) :
    (g.typeFlags t).parameter = true ↔ ∃ d, (g.typeTree t).Mentions d := by
  refine hg.flag_iff (P := fun tree => ∃ d, tree.Mentions d) rfl (fun _ _ => rfl) (fun f part => ?_)
    ht
  simp only [TypeForm.mentions_tree, TypeForm.parameter_ownFlags, exists_or]
  refine or_congr_right ⟨?_, ?_⟩
  · rintro ⟨d, s, hs, hd⟩
    exact ⟨s, hs, d, hd⟩
  · rintro ⟨s, hs, d, hd⟩
    exact ⟨d, s, hs, hd⟩

/-- Replacing parameters that do not occur does nothing. -/
theorem WellFormed.replace_of_not_mentions (hg : g.WellFormed) {ds : List DeclHandle}
    {θ : DeclHandle → TypeTree} {t : TypeHandle} (ht : g.contains t = true)
    (h : ∀ d ∈ ds, ¬ (g.typeTree t).Mentions d) : (g.typeTree t).replace ds θ = g.typeTree t := by
  obtain ⟨i⟩ := t
  induction i using Nat.strongRecOn with
  | ind i ih =>
    simp only [hg.mentions_iff ht, not_or, not_exists, not_and] at h
    rw [hg.typeTree_eq ht, TypeForm.replace_tree fun d hd => (h d hd).1]
    exact TypeForm.tree_congr fun s hs => ih s.index (hg.component_lt ht hs)
      (hg.contains_component ht hs) fun d hd => (h d hd).2 s hs

end Graph
end SemanticCore
