import SemanticCore.Proofs.Action.Reachable
import SemanticCore.Proofs.Template.Replacement

/-!
# What the flags of a type say

The flags of a type are computed once, when the type is entered, from the flags of its components,
and are kept in a sequence of their own beside the types.  Whoever asks whether a type is dependent
reads them and never walks through the type.  So they have to be exact: a flag that is missing lets
a call be resolved that should have been deferred, and one too many defers it for good.

`TypeTree.Within` is what the flags are compared with, an occurrence of one tree in another.  A node
occurs in the tree of a form if it is the tree itself or occurs in the tree of a component
(`TypeForm.within_tree`), and the flags of a type are put together in the same way.

* `Graph.WellFormed.flag_within` — a flag is set exactly if a node of its kind occurs in the type.
* `Graph.Reachable.flags_exact` — **every flag of every type is exact.**
-/

set_option autoImplicit false
namespace SemanticCore

/-- The first tree occurs in the second, as the whole of it or somewhere inside. -/
inductive TypeTree.Within (s : TypeTree) : TypeTree → Prop
  | refl : Within s s
  | child {t c : TypeTree} (hc : c ∈ t.children) (h : Within s c) : Within s t

namespace TypeForm

variable {f : TypeForm} {part : TypeHandle → TypeTree}

theorem within_tree {s : TypeTree} :
    s.Within (f.tree part) ↔ s = f.tree part ∨ ∃ t ∈ f.components, s.Within (part t) := by
  constructor
  · intro h
    generalize htree : f.tree part = tree at h ⊢
    cases h with
    | refl => exact .inl rfl
    | child hc h =>
      subst htree
      rw [children_tree] at hc
      obtain ⟨t, ht, rfl⟩ := List.mem_map.1 hc
      exact .inr ⟨t, ht, h⟩
  · rintro (rfl | ⟨t, ht, h⟩)
    · exact .refl
    · exact .child (children_tree f ▸ List.mem_map_of_mem ht) h

/-- A node of some kind occurs in the tree of a form if the form is of this kind or such a node
occurs in the tree of a component. -/
theorem exists_within_tree {ι : Type} (node : ι → TypeTree) :
    (∃ i, (node i).Within (f.tree part)) ↔
      (∃ i, node i = f.tree part) ∨ ∃ t ∈ f.components, ∃ i, (node i).Within (part t) := by
  simp only [within_tree, exists_or]
  refine or_congr_right ⟨?_, ?_⟩
  · rintro ⟨i, t, ht, h⟩
    exact ⟨t, ht, i, h⟩
  · rintro ⟨t, ht, i, h⟩
    exact ⟨i, t, ht, h⟩

/-! ## The flags that a form sets by itself -/

theorem placeholder_ownFlags_tree : f.ownFlags.placeholder = true ↔
    ∃ i : UInt32 ⊕ UInt32, Sum.elim TypeTree.auto TypeTree.declauto i = f.tree part := by
  cases f <;> simp [ownFlags, TypeFlags.none, tree, Sum.exists]

theorem parameter_ownFlags_tree :
    f.ownFlags.parameter = true ↔ ∃ d, TypeTree.typename d = f.tree part := by
  cases f <;> simp [ownFlags, TypeFlags.none, tree]

theorem archetype_ownFlags_tree :
    f.ownFlags.archetype = true ↔ ∃ d, TypeTree.archetype d = f.tree part := by
  cases f <;> simp [ownFlags, TypeFlags.none, tree]

theorem classType_ownFlags_tree :
    f.ownFlags.classType = true ↔ ∃ d, TypeTree.ofClass d = f.tree part := by
  cases f <;> simp [ownFlags, TypeFlags.none, tree]

/-- No form is the type of an expression. -/
theorem decltype_ownFlags : f.ownFlags.decltype = false := by
  cases f <;> rfl

end TypeForm

namespace Graph

variable {g : Graph} {t : TypeHandle}

/-! ## The flags of a type -/

/-- **A flag is set exactly if a node of its kind occurs in the type**, if the forms that set it by
themselves are those of the kind. -/
theorem WellFormed.flag_within (hg : g.WellFormed) {flag : TypeFlags → Bool} {ι : Type}
    {node : ι → TypeTree} (hnone : flag .none = false)
    (hunion : ∀ a b, flag (a.union b) = (flag a || flag b))
    (hown : ∀ (f : TypeForm) (part : TypeHandle → TypeTree),
      flag f.ownFlags = true ↔ ∃ i, node i = f.tree part) (ht : g.contains t = true) :
    flag (g.typeFlags t) = true ↔ ∃ i, (node i).Within (g.typeTree t) := by
  refine hg.flag_iff (P := fun tree => ∃ i, (node i).Within tree) hnone hunion (fun f part => ?_) ht
  rw [TypeForm.exists_within_tree, hown f part]

theorem WellFormed.placeholder_within (hg : g.WellFormed) (ht : g.contains t = true) :
    (g.typeFlags t).placeholder = true ↔
      (∃ n, (TypeTree.auto n).Within (g.typeTree t)) ∨
        ∃ n, (TypeTree.declauto n).Within (g.typeTree t) :=
  (hg.flag_within rfl (fun _ _ => rfl) (fun _ _ => TypeForm.placeholder_ownFlags_tree) ht).trans
    Sum.exists

theorem WellFormed.parameter_within (hg : g.WellFormed) (ht : g.contains t = true) :
    (g.typeFlags t).parameter = true ↔ ∃ d, (TypeTree.typename d).Within (g.typeTree t) :=
  hg.flag_within rfl (fun _ _ => rfl) (fun _ _ => TypeForm.parameter_ownFlags_tree) ht

/-- The flag for the type of an expression is never set. -/
theorem WellFormed.decltype_typeFlags (hg : g.WellFormed) (ht : g.contains t = true) :
    (g.typeFlags t).decltype = false := by
  refine eq_false_of_ne_true fun h => ?_
  refine (hg.flag_iff (P := fun _ => False) rfl (fun _ _ => rfl) (fun f part => ?_) ht).1 h
  simp [TypeForm.decltype_ownFlags]

/-- **A type is dependent exactly if a placeholder or a template parameter occurs in it.** -/
theorem WellFormed.isDependent_within (hg : g.WellFormed) (ht : g.contains t = true) :
    g.isDependent t = true ↔
      ((∃ n, (TypeTree.auto n).Within (g.typeTree t)) ∨
        ∃ n, (TypeTree.declauto n).Within (g.typeTree t)) ∨
      ∃ d, (TypeTree.typename d).Within (g.typeTree t) := by
  rw [isDependent, TypeFlags.isDependent, hg.decltype_typeFlags ht, Bool.or_false, Bool.or_eq_true,
    hg.placeholder_within ht, hg.parameter_within ht]

/-- **The flags of a type are exact.**  Each type has flags beside it, and each of these is set
exactly if a node of its kind occurs in the unfolded type; the flag for the type of an expression
is never set.  So a type is dependent exactly if a placeholder or a template parameter occurs in
it. -/
theorem Reachable.flags_exact (hg : g.Reachable) (ht : g.contains t = true) :
    g.flags[t.index]? = some (g.typeFlags t) ∧
    ((g.typeFlags t).placeholder = true ↔
      (∃ n, (TypeTree.auto n).Within (g.typeTree t)) ∨
        ∃ n, (TypeTree.declauto n).Within (g.typeTree t)) ∧
    ((g.typeFlags t).parameter = true ↔ ∃ d, (TypeTree.typename d).Within (g.typeTree t)) ∧
    ((g.typeFlags t).archetype = true ↔ ∃ d, (TypeTree.archetype d).Within (g.typeTree t)) ∧
    ((g.typeFlags t).classType = true ↔ ∃ d, (TypeTree.ofClass d).Within (g.typeTree t)) ∧
    (g.typeFlags t).decltype = false ∧
    (g.isDependent t = true ↔
      ((∃ n, (TypeTree.auto n).Within (g.typeTree t)) ∨
        ∃ n, (TypeTree.declauto n).Within (g.typeTree t)) ∨
      ∃ d, (TypeTree.typename d).Within (g.typeTree t)) := by
  have hw := hg.wellFormed
  have hstored : t.index < g.flags.size := hw.flags_size ▸ contains_iff.1 ht
  exact ⟨getElem?_eq_some_getD hstored .none, hw.placeholder_within ht, hw.parameter_within ht,
    hw.flag_within rfl (fun _ _ => rfl) (fun _ _ => TypeForm.archetype_ownFlags_tree) ht,
    hw.flag_within rfl (fun _ _ => rfl) (fun _ _ => TypeForm.classType_ownFlags_tree) ht,
    hw.decltype_typeFlags ht, hw.isDependent_within ht⟩

/-- The graph of `auto*`, a template parameter `T`, a class type, which is 7, and the function type
`T& (auto*)`, which is 8. -/
def mixedSignature : Graph :=
  let build : Build Unit := do
    let placeholder ← Build.autoType
    let pointer ← Build.pointerType placeholder
    let d ← Build.typeParam .globalName none
    if let .ok t ← (Build.typenameType d).run then
      let ref ← Build.referenceType t
      let c ← Build.classDecl .globalName
      let _ ← (Build.classType c).run
      let _ ← Build.functionTypeOf [pointer] ref
  (build (.initial .empty 32)).2

theorem mixedSignature_reachable : mixedSignature.Reachable := by
  have hauto := (Reachable.initial .empty 32).operation (x := Build.autoType) .autoType
  have hpointer := hauto.operation (x := Build.pointerType ⟨3⟩) (.pointerType rfl)
  have hparam := hpointer.operation (x := Build.typeParam .globalName none)
    (.typeParam rfl (by rintro _ ⟨⟩))
  have htypename := hparam.operation (.typenameType (d := ⟨1⟩) rfl)
  have href := htypename.operation (x := Build.referenceType ⟨5⟩) (.referenceType rfl)
  have hclass := href.operation (x := Build.classDecl .globalName) (.classDecl rfl)
  have hclassType := hclass.operation (.classType (d := ⟨2⟩) rfl)
  exact hclassType.operation (x := Build.functionTypeOf [⟨4⟩] ⟨6⟩)
    (.functionTypeOf (by simp; rfl) rfl)

/-- In the function type a placeholder and a template parameter occur, and so it is dependent; no
class does, and none is flagged, although there is one in the graph. -/
theorem flags_exact_mixedSignature :
    (mixedSignature.Reachable ∧ mixedSignature.contains (⟨8⟩ : TypeHandle) = true ∧
      mixedSignature.contains (⟨7⟩ : TypeHandle) = true) ∧
    mixedSignature.flags[8]? = some ⟨true, true, false, false, false⟩ ∧
    ((∃ n, (TypeTree.auto n).Within (mixedSignature.typeTree ⟨8⟩)) ∨
      ∃ n, (TypeTree.declauto n).Within (mixedSignature.typeTree ⟨8⟩)) ∧
    (∃ d, (TypeTree.typename d).Within (mixedSignature.typeTree ⟨8⟩)) ∧
    (¬ ∃ d, (TypeTree.ofClass d).Within (mixedSignature.typeTree ⟨8⟩)) ∧
    mixedSignature.isDependent ⟨8⟩ = true ∧
    (∃ d, (TypeTree.ofClass d).Within (mixedSignature.typeTree ⟨7⟩)) ∧
    mixedSignature.isDependent ⟨7⟩ = false := by
  have hg := mixedSignature_reachable
  obtain ⟨hstored, hplaceholder, hparameter, -, hclass, -, hdependent⟩ :=
    hg.flags_exact (t := ⟨8⟩) rfl
  have hopen := hplaceholder.1 rfl
  have hclassType := (hg.flags_exact (t := ⟨7⟩) rfl).2.2.2.2.1
  exact ⟨⟨hg, rfl, rfl⟩, hstored, hopen, hparameter.1 rfl, fun h => Bool.false_ne_true (hclass.2 h),
    hdependent.2 (.inl hopen), hclassType.1 rfl, rfl⟩

end Graph
end SemanticCore
