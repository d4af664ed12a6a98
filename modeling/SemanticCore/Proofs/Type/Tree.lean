import SemanticCore.Proofs.Graph.Growth

/-!
# Type trees

A type handle stands for a whole type: the tree that is found by following the components of the
node, and their components, down to types without components.  `Graph.typeTree` unfolds a handle to
this tree.  The leaves that are not types are declarations and the numbers of placeholders.

The components of a node come before it (`Graph.Placed`), so the unfolding ends; in a well-formed
graph it never meets the default that stands for a component out of order, which is what
`Graph.WellFormed.typeTree_eq` says.

* `Graph.WellFormed.typeTree_injective` — **types of one tree have one handle**, since types are
  interned.
* `Graph.WellFormed.typeTree_extend` — the tree of a handle never changes.
-/

set_option autoImplicit false
namespace SemanticCore

/-- A type, unfolded. -/
inductive TypeTree where
  | void
  | bool
  | int (signed : Bool) (precision : UInt16)
  | float
  | auto (number : UInt32)
  | declauto (number : UInt32)
  | function (params : List TypeTree) (ret : TypeTree)
  | qualified (base : TypeTree) (quals : Qualifiers)
  | pointer (target : TypeTree)
  | reference (target : TypeTree)
  | sequence (element : TypeTree)
  | ofClass (decl : DeclHandle)
  | typename (decl : DeclHandle)
  | archetype (decl : DeclHandle)
deriving Inhabited

/-! ## From a form to a tree -/

namespace TypeForm

/-- The tree of a form, given the trees of its components. -/
def tree (part : TypeHandle → TypeTree) : TypeForm → TypeTree
  | void => .void
  | bool => .bool
  | int signed precision => .int signed precision
  | float => .float
  | auto n => .auto n
  | declauto n => .declauto n
  | function params ret => .function (params.map part) (part ret)
  | qualified base quals => .qualified (part base) quals
  | pointer t => .pointer (part t)
  | reference t => .reference (part t)
  | sequence t => .sequence (part t)
  | ofClass d => .ofClass d
  | typename d => .typename d
  | archetype d => .archetype d

variable {part part' : TypeHandle → TypeTree}

/-- The tree depends on the trees of the components only. -/
theorem tree_congr {f : TypeForm} (h : ∀ t ∈ f.components, part t = part' t) :
    f.tree part = f.tree part' := by
  cases f with
  | function params ret =>
    have hps : ∀ t ∈ params, part t = part' t := fun t ht => h t (List.mem_append_left _ ht)
    have hret : part ret = part' ret := h ret (List.mem_append_right _ List.mem_cons_self)
    rw [tree, tree, List.map_congr_left hps, hret]
  | qualified base quals => rw [tree, tree, h base List.mem_cons_self]
  | pointer t | reference t | sequence t => rw [tree, tree, h t List.mem_cons_self]
  | _ => rfl

end TypeForm

/-- Lists are equal if their images are and the function tells their members apart. -/
theorem eq_of_map_eq_map {α β : Type} {f : α → β} {as bs : List α} (h : as.map f = bs.map f)
    (hf : ∀ a ∈ as, ∀ b ∈ bs, f a = f b → a = b) : as = bs := by
  induction as generalizing bs with
  | nil => exact (List.map_eq_nil_iff.1 h.symm).symm
  | cons a as ih =>
    cases bs with
    | nil => cases h
    | cons b bs =>
      obtain ⟨hab, hrest⟩ := List.cons.inj h
      rw [hf a List.mem_cons_self b List.mem_cons_self hab,
        ih hrest fun x hx y hy => hf x (List.mem_cons_of_mem _ hx) y (List.mem_cons_of_mem _ hy)]

/-- Forms of one tree are equal if the trees of their components tell these apart. -/
theorem TypeForm.tree_injective {part : TypeHandle → TypeTree} {f f' : TypeForm}
    (h : f.tree part = f'.tree part)
    (hpart : ∀ s ∈ f.components, ∀ t ∈ f'.components, part s = part t → s = t) : f = f' := by
  cases f with
  | function params ret =>
    cases f' with
    | function params' ret' =>
      obtain ⟨hps, hret⟩ := TypeTree.function.inj h
      have hmem : ∀ {ps : List TypeHandle} {r : TypeHandle}, r ∈ ps ++ [r] :=
        List.mem_append_right _ List.mem_cons_self
      rw [hpart ret hmem ret' hmem hret, eq_of_map_eq_map hps fun s hs t ht =>
        hpart s (List.mem_append_left _ hs) t (List.mem_append_left _ ht)]
    | _ => cases h
  | qualified base quals =>
    cases f' with
    | qualified base' quals' =>
      obtain ⟨hbase, rfl⟩ := TypeTree.qualified.inj h
      rw [hpart base List.mem_cons_self base' List.mem_cons_self hbase]
    | _ => cases h
  | pointer t =>
    cases f' with
    | pointer t' =>
      rw [hpart t List.mem_cons_self t' List.mem_cons_self (TypeTree.pointer.inj h)]
    | _ => cases h
  | reference t =>
    cases f' with
    | reference t' =>
      rw [hpart t List.mem_cons_self t' List.mem_cons_self (TypeTree.reference.inj h)]
    | _ => cases h
  | sequence t =>
    cases f' with
    | sequence t' =>
      rw [hpart t List.mem_cons_self t' List.mem_cons_self (TypeTree.sequence.inj h)]
    | _ => cases h
  | _ => cases f' <;> cases h; rfl

namespace Graph

/-! ## From a handle to a tree -/

/-- The tree of a type.  A component that does not come before the type would count as `void`. -/
def typeTree (g : Graph) (t : TypeHandle) : TypeTree :=
  (g.type t).tree fun s => if _ : s < t then g.typeTree s else .void
termination_by t.index
decreasing_by assumption

variable {g g' : Graph}

/-- The tree of a type is made of the trees of its components. -/
theorem WellFormed.typeTree_eq (hg : g.WellFormed) {t : TypeHandle} (ht : g.contains t = true) :
    g.typeTree t = (g.type t).tree g.typeTree := by
  rw [Graph.typeTree]
  exact TypeForm.tree_congr fun s hs => dif_pos (hg.component_lt ht hs)

theorem type_get (t : TypeHandle) (ht : g.contains t = true) :
    g.types.nodes[t.index]? = some (g.type t) :=
  getElem?_eq_some_getD (contains_iff.1 ht) default

/-- Types of one form have one handle. -/
theorem type_injective {s t : TypeHandle} (hs : g.contains s = true) (ht : g.contains t = true)
    (h : g.type s = g.type t) : s = t :=
  Handle.ext (Interned.index_unique (h ▸ type_get s hs) (type_get t ht))

/-- **Types of one tree have one handle.** -/
theorem WellFormed.typeTree_injective (hg : g.WellFormed) {s t : TypeHandle}
    (hs : g.contains s = true) (ht : g.contains t = true) (h : g.typeTree s = g.typeTree t) :
    s = t := by
  obtain ⟨i⟩ := s
  induction i using Nat.strongRecOn generalizing t with
  | ind i ih =>
    rw [hg.typeTree_eq hs, hg.typeTree_eq ht] at h
    -- the components are known to be equal by induction, and then so are the forms
    refine type_injective hs ht (TypeForm.tree_injective h fun x hx y hy hxy => ?_)
    exact ih x.index (hg.component_lt hs hx) (hg.contains_component ht hy)
      (hg.contains_component hs hx) hxy

/-- A form that fits the graph and has the tree of a type of the graph is the form of that type. -/
theorem WellFormed.type_eq_of_tree (hg : g.WellFormed) {t : TypeHandle} {f : TypeForm}
    (ht : g.contains t = true) (hf : f.Fits g) (h : g.typeTree t = f.tree g.typeTree) :
    g.type t = f := by
  rw [hg.typeTree_eq ht] at h
  exact TypeForm.tree_injective h fun x hx y hy hxy =>
    hg.typeTree_injective (hg.contains_component ht hx) (fits_components hf y hy) hxy

/-- **The tree of a type stays as it is when the graph is extended.** -/
theorem WellFormed.typeTree_extend (hg : g.WellFormed) (h : g.Extends g') {t : TypeHandle}
    (ht : g.contains t = true) : g'.typeTree t = g.typeTree t := by
  obtain ⟨i⟩ := t
  induction i using Nat.strongRecOn with
  | ind i ih =>
    rw [hg.typeTree_eq ht, Graph.typeTree, h.type ht]
    refine TypeForm.tree_congr fun s hs => ?_
    have hlt := hg.component_lt ht hs
    rw [dif_pos hlt]
    exact ih s.index hlt (hg.contains_component ht hs)

end Graph
end SemanticCore
