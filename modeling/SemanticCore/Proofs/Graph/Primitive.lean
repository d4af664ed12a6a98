import SemanticCore.Proofs.Graph.Extension

/-!
# Primitive additions

Whatever is built is built out of a few primitive additions to a graph: a number or a symbol is
handed out, or a node is added.  `Graph.Frame` and `Graph.ExprFrame` say of a relation between two
graphs that it is a preorder and holds for each of them; the second one includes expressions.  That
one graph extends the other is such a relation (`Graph.frame_extends`).
-/

set_option autoImplicit false
namespace SemanticCore

/-- Interning either finds the value or stores it at the end. -/
theorem Interned.intern_cases {κ : Type} [Coded κ] (t : Interned κ) (k : κ) :
    (∃ i, t.nodes[i]? = some k ∧ t.intern k = (i, t)) ∨
      (∀ i : Nat, t.nodes[i]? ≠ some k) ∧ (t.intern k).1 = t.size ∧
        (t.intern k).2.nodes = t.nodes.push k := by
  by_cases h : ∃ i : Nat, t.nodes[i]? = some k
  · obtain ⟨i, hi⟩ := h
    exact .inl ⟨i, hi, intern_of_getElem? hi⟩
  · have hne : ∀ i : Nat, t.nodes[i]? ≠ some k := fun i hi => h ⟨i, hi⟩
    exact .inr ⟨hne, nodes_intern_of_forall_ne hne⟩

/-- Asking for a type either finds it or stores it, with its flags, at the end. -/
theorem Build.type_cases (f : TypeForm) (g : Graph) :
    (∃ t : TypeHandle, g.types.nodes[t.index]? = some f ∧ Build.type f g = (t, g)) ∨
      (∀ i : Nat, g.types.nodes[i]? ≠ some f) ∧
        ∃ types : Interned TypeForm, types.nodes = g.types.nodes.push f ∧
          Build.type f g =
            (⟨g.types.size⟩, { g with types, flags := g.flags.push (g.flagsOf f) }) := by
  simp only [Build.type, modifyGet, MonadStateOf.modifyGet, StateT.modifyGet]
  split
  · next i hi =>
    exact .inl ⟨⟨i⟩, Interned.find?_eq_some_iff.1 hi, rfl⟩
  · next hn =>
    refine .inr ⟨fun i hi => ?_, g.types.push f hn, rfl, rfl⟩
    rw [Interned.find?_eq_some_iff.2 hi] at hn
    cases hn

/-- The type is found at the handle returned. -/
theorem Build.getElem?_type (f : TypeForm) (g : Graph) :
    (Build.type f g).2.types.nodes[(Build.type f g).1.index]? = some f := by
  rcases Build.type_cases f g with ⟨t, hget, ht⟩ | ⟨-, types, hn, ht⟩
  · rw [ht]
    exact hget
  · rw [ht]
    exact hn ▸ Array.getElem?_push_size

/-- The type that is returned is there and has the form that was asked for. -/
theorem Build.type_returned (f : TypeForm) (g : Graph) :
    Graph.contains (Build.type f g).2 (Build.type f g).1 = true ∧
      Graph.type (Build.type f g).2 (Build.type f g).1 = f := by
  have hget := Build.getElem?_type f g
  exact ⟨Graph.contains_iff.2 (Array.getElem?_eq_some_iff.1 hget).1,
    congrArg (Option.getD · default) hget⟩

/-- The name that is returned is there and has the form that was asked for. -/
theorem Build.name_returned (f : NameForm) (g : Graph) :
    Graph.contains (Build.name f g).2 (Build.name f g).1 = true ∧
      Graph.name (Build.name f g).2 (Build.name f g).1 = f := by
  have hget := g.names.getElem?_intern f
  exact ⟨Graph.contains_iff.2 (Array.getElem?_eq_some_iff.1 hget).1,
    congrArg (Option.getD · default) hget⟩

namespace Graph

/-- A preorder that holds between a graph and what a primitive addition makes of it. -/
structure Frame (R : Graph → Graph → Prop) : Prop where
  refl : ∀ g, R g g
  trans : ∀ {g g' g''}, R g g' → R g' g'' → R g g''
  fresh : ∀ g, R g (Build.fresh g).2
  symbol : ∀ s g, R g (Build.symbol s g).2
  name : ∀ f g, R g (Build.name f g).2
  type : ∀ f g, R g (Build.type f g).2
  constraint : ∀ f g, R g (Build.constraint f g).2
  decl : ∀ n f g, R g (Build.decl n f g).2
  stmt : ∀ f g, R g (Build.stmt f g).2
  defn : ∀ f g, R g (Build.defn f g).2
  init : ∀ f t g, R g (Build.init f t g).2
  req : ∀ f g, R g (Build.req f g).2

/-- The relation also holds if the primitive addition is that of an expression. -/
structure ExprFrame (R : Graph → Graph → Prop) : Prop extends Frame R where
  expr : ∀ f t g, R g (Build.expr f t g).2

/-- **Every primitive addition extends the graph.** -/
theorem frame_extends : ExprFrame Extends where
  refl := .refl
  trans := .trans
  symbol s g := { Extends.refl g with symbols := g.symbols.kept_intern s }
  fresh g := { Extends.refl g with }
  name f g := { Extends.refl g with names := g.names.kept_intern f }
  type f g := by
    rcases Build.type_cases f g with ⟨t, -, ht⟩ | ⟨-, types, hn, ht⟩
    · rw [ht]
      exact .refl g
    · rw [ht]
      exact { Extends.refl g with types := hn ▸ .push _ _, flags := .push _ _ }
  constraint f g := { Extends.refl g with constraints := g.constraints.kept_intern f }
  expr _ _ g := { Extends.refl g with exprs := .push _ _ }
  decl n f g := by
    refine { Extends.refl g with decls := fun i d hd => ⟨d, ?_, .refl d⟩ }
    exact Kept.push g.decls _ i d hd
  stmt _ g := { Extends.refl g with stmts := .push _ _ }
  defn _ g := { Extends.refl g with defs := .push _ _ }
  init _ _ g := { Extends.refl g with inits := .push _ _ }
  req _ g := { Extends.refl g with reqs := .push _ _ }

end Graph
end SemanticCore
