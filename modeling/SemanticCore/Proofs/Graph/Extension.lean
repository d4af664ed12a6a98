import Mathlib.Order.Basic
import Mathlib.Tactic.ByContra
import SemanticCore.Decl.Form

/-!
# Extensions of a graph

A graph only ever grows: nodes are added at the end of their sequences, and of the nodes that are
there only declarations change, by being placed and by having an empty slot filled.
`Graph.Extends g g'` says that `g'` has grown out of `g` in this way.

* `Decl.Completes` — the one way in which a declaration changes.
* `Graph.Extends.contains` and the reading lemmas after it — a handle that names a node keeps
  naming it, and reading it gives what it gave before.
* `Graph.Extends.declaredType?` and its neighbours — what a declaration declares never changes.
-/

set_option autoImplicit false
namespace SemanticCore

/-! ## Sequences that grow -/

/-- Everything stored in the first array stands at the same place in the second. -/
def Kept {κ : Type} (a b : Array κ) : Prop :=
  ∀ (i : Nat) (k : κ), a[i]? = some k → b[i]? = some k

namespace Kept

variable {κ : Type} {a b c : Array κ}

theorem refl (a : Array κ) : Kept a a := fun _ _ h => h

theorem trans (h : Kept a b) (h' : Kept b c) : Kept a c := fun i k hi => h' i k (h i k hi)

theorem push (a : Array κ) (k : κ) : Kept a (a.push k) := by
  intro i x h
  have hi : i < a.size := (Array.getElem?_eq_some_iff.1 h).1
  rw [Array.getElem?_push_lt hi, ← h, Array.getElem?_eq_getElem hi]

theorem size_le (h : Kept a b) : a.size ≤ b.size := by
  by_contra hlt
  have hb : b.size < a.size := Nat.lt_of_not_le hlt
  have hget := h b.size a[b.size] (Array.getElem?_eq_getElem hb)
  rw [Array.getElem?_size] at hget
  cases hget

theorem getD_eq [Inhabited κ] (h : Kept a b) {i : Nat} (hi : i < a.size) (k : κ) :
    b[i]?.getD k = a[i]?.getD k := by
  have ha : a[i]? = some a[i] := Array.getElem?_eq_getElem hi
  rw [h i _ ha, ha]

end Kept

theorem getElem?_eq_some_getD {κ : Type} {a : Array κ} {i : Nat} (hi : i < a.size) (k : κ) :
    a[i]? = some (a[i]?.getD k) := by
  rw [Array.getElem?_eq_getElem hi, Option.getD_some]

theorem getD_push {κ : Type} (a : Array κ) (x k : κ) (i : Nat) :
    (a.push x)[i]?.getD k = if i = a.size then x else a[i]?.getD k := by
  rw [Array.getElem?_push]
  split
  · rfl
  · rfl

/-- Interning keeps what is stored. -/
theorem Interned.kept_intern {κ : Type} [Coded κ] (t : Interned κ) (k : κ) :
    Kept t.nodes (t.intern k).2.nodes := by
  unfold intern
  split
  · exact .refl _
  · exact .push _ _

/-! ## Declarations that are completed -/

/-- A form whose empty slot may have been filled. -/
inductive DeclForm.Completes : DeclForm → DeclForm → Prop
  | refl (f : DeclForm) : Completes f f
  | var (t : TypeHandle) (i : InitHandle) : Completes (.var t none) (.var t (some i))
  | function (t : TypeHandle) (params : List DeclHandle) (d : DefHandle) :
      Completes (.function t params none) (.function t params (some d))
  | ofClass (d : DefHandle) : Completes (.ofClass none) (.ofClass (some d))
  | concept (params : List DeclHandle) (d : DefHandle) :
      Completes (.concept params none) (.concept params (some d))

theorem DeclForm.Completes.trans {f g h : DeclForm} (hfg : f.Completes g) (hgh : g.Completes h) :
    f.Completes h := by
  cases hfg with
  | refl => exact hgh
  | var t i => cases hgh; exact .var t i
  | function t params d => cases hgh; exact .function t params d
  | ofClass d => cases hgh; exact .ofClass d
  | concept params d => cases hgh; exact .concept params d

theorem DeclForm.completes_withDefinition {f : DeclForm} {d : DefHandle}
    (h : f.definition? = some none) : f.Completes (f.withDefinition d) := by
  cases f with
  | function t params slot => cases h; exact .function t params d
  | ofClass slot => cases h; exact .ofClass d
  | concept params slot => cases h; exact .concept params d
  | _ => cases h

/-- A declaration that may have been placed and completed.  Its name stays. -/
structure Decl.Completes (d d' : Decl) : Prop where
  name : d'.name = d.name
  form : d.form.Completes d'.form

theorem Decl.Completes.refl (d : Decl) : d.Completes d := ⟨rfl, .refl _⟩

theorem Decl.Completes.trans {a b c : Decl} (h : a.Completes b) (h' : b.Completes c) :
    a.Completes c :=
  ⟨h'.name.trans h.name, h.form.trans h'.form⟩

namespace Graph

/-! ## Extensions -/

/-- The second graph has grown out of the first. -/
structure Extends (g g' : Graph) : Prop where
  intPrecision : g'.intPrecision = g.intPrecision
  symbols : Kept g.symbols.nodes g'.symbols.nodes
  names : Kept g.names.nodes g'.names.nodes
  types : Kept g.types.nodes g'.types.nodes
  flags : Kept g.flags g'.flags
  exprs : Kept g.exprs g'.exprs
  /-- Declarations may be completed. -/
  decls : ∀ (i : Nat) (d : Decl), g.decls[i]? = some d →
    ∃ d', g'.decls[i]? = some d' ∧ d.Completes d'
  stmts : Kept g.stmts g'.stmts
  defs : Kept g.defs g'.defs
  inits : Kept g.inits g'.inits
  constraints : Kept g.constraints.nodes g'.constraints.nodes
  reqs : Kept g.reqs g'.reqs

theorem decls_refl (g : Graph) (i : Nat) (d : Decl) (h : g.decls[i]? = some d) :
    ∃ d', g.decls[i]? = some d' ∧ d.Completes d' :=
  ⟨d, h, .refl d⟩

variable {g g' g'' : Graph}

theorem Extends.refl (g : Graph) : g.Extends g :=
  ⟨rfl, .refl _, .refl _, .refl _, .refl _, .refl _, g.decls_refl, .refl _, .refl _, .refl _,
    .refl _, .refl _⟩

theorem Extends.trans (h : g.Extends g') (h' : g'.Extends g'') : g.Extends g'' where
  intPrecision := h'.intPrecision.trans h.intPrecision
  symbols := h.symbols.trans h'.symbols
  names := h.names.trans h'.names
  types := h.types.trans h'.types
  flags := h.flags.trans h'.flags
  exprs := h.exprs.trans h'.exprs
  decls i d hd := by
    obtain ⟨d₁, h₁, hc₁⟩ := h.decls i d hd
    obtain ⟨d₂, h₂, hc₂⟩ := h'.decls i d₁ h₁
    exact ⟨d₂, h₂, hc₁.trans hc₂⟩
  stmts := h.stmts.trans h'.stmts
  defs := h.defs.trans h'.defs
  inits := h.inits.trans h'.inits
  constraints := h.constraints.trans h'.constraints
  reqs := h.reqs.trans h'.reqs

theorem Extends.decls_size (h : g.Extends g') : g.decls.size ≤ g'.decls.size := by
  by_contra hlt
  have hb : g'.decls.size < g.decls.size := Nat.lt_of_not_le hlt
  obtain ⟨d, hd, -⟩ := h.decls _ _ (Array.getElem?_eq_getElem hb)
  rw [Array.getElem?_size] at hd
  cases hd

theorem Extends.count_le (h : g.Extends g') (c : Category) : g.count c ≤ g'.count c := by
  cases c with
  | name => exact h.names.size_le
  | type => exact h.types.size_le
  | expr => exact h.exprs.size_le
  | decl => exact h.decls_size
  | stmt => exact h.stmts.size_le
  | defn => exact h.defs.size_le
  | init => exact h.inits.size_le
  | cons => exact h.constraints.size_le
  | req => exact h.reqs.size_le

theorem contains_iff {c : Category} {x : Handle c} :
    g.contains x = true ↔ x.index < g.count c := by
  simp [contains]

/-- A handle that names a node goes on naming one. -/
theorem Extends.contains (h : g.Extends g') {c : Category} {x : Handle c}
    (hx : g.contains x = true) : g'.contains x = true :=
  contains_iff.2 (Nat.lt_of_lt_of_le (contains_iff.1 hx) (h.count_le c))

/-! ## Reading nodes in an extension -/

theorem Extends.name (h : g.Extends g') {n : NameHandle} (hn : g.contains n = true) :
    g'.name n = g.name n :=
  h.names.getD_eq (contains_iff.1 hn) default

theorem Extends.type (h : g.Extends g') {t : TypeHandle} (ht : g.contains t = true) :
    g'.type t = g.type t :=
  h.types.getD_eq (contains_iff.1 ht) default

theorem Extends.expr (h : g.Extends g') {e : ExprHandle} (he : g.contains e = true) :
    g'.expr e = g.expr e :=
  h.exprs.getD_eq (contains_iff.1 he) default

theorem Extends.stmt (h : g.Extends g') {s : StmtHandle} (hs : g.contains s = true) :
    g'.stmt s = g.stmt s :=
  h.stmts.getD_eq (contains_iff.1 hs) default

theorem Extends.defn (h : g.Extends g') {d : DefHandle} (hd : g.contains d = true) :
    g'.defn d = g.defn d :=
  h.defs.getD_eq (contains_iff.1 hd) default

theorem Extends.init (h : g.Extends g') {i : InitHandle} (hi : g.contains i = true) :
    g'.init i = g.init i :=
  h.inits.getD_eq (contains_iff.1 hi) default

theorem Extends.cons (h : g.Extends g') {c : ConsHandle} (hc : g.contains c = true) :
    g'.cons c = g.cons c :=
  h.constraints.getD_eq (contains_iff.1 hc) default

theorem Extends.req (h : g.Extends g') {r : ReqHandle} (hr : g.contains r = true) :
    g'.req r = g.req r :=
  h.reqs.getD_eq (contains_iff.1 hr) default

theorem Extends.decl (h : g.Extends g') {d : DeclHandle} (hd : g.contains d = true) :
    (g.decl d).Completes (g'.decl d) := by
  have hd' := getElem?_eq_some_getD (contains_iff.1 hd) default
  obtain ⟨d', hget, hc⟩ := h.decls _ _ hd'
  rwa [Graph.decl, Graph.decl, hget]

/-! ## What a type is at its top level -/

theorem Extends.unqualified (h : g.Extends g') {t : TypeHandle} (ht : g.contains t = true) :
    g'.unqualified t = g.unqualified t := by
  rw [Graph.unqualified, Graph.unqualified, h.type ht]

theorem Extends.quals (h : g.Extends g') {t : TypeHandle} (ht : g.contains t = true) :
    g'.quals t = g.quals t := by
  rw [Graph.quals, Graph.quals, h.type ht]

theorem Extends.nonReference (h : g.Extends g') {t : TypeHandle} (ht : g.contains t = true) :
    g'.nonReference t = g.nonReference t := by
  rw [Graph.nonReference, Graph.nonReference, h.type ht]

theorem Extends.isReference (h : g.Extends g') {t : TypeHandle} (ht : g.contains t = true) :
    g'.isReference t = g.isReference t := by
  rw [Graph.isReference, Graph.isReference, h.type ht]

/-! ## What a declaration declares -/

/-- A handle without a node reads as a namespace. -/
theorem contains_of_form_ne {d : DeclHandle} (h : (g.decl d).form ≠ .ofNamespace) :
    g.contains d = true := by
  rw [contains_iff]
  by_contra hd
  refine h ?_
  rw [Graph.decl, Array.getElem?_eq_none (Nat.le_of_not_lt hd)]
  rfl

theorem contains_of_declaredType? {d : DeclHandle} {t : TypeHandle}
    (h : g.declaredType? d = some t) : g.contains d = true :=
  contains_of_form_ne fun hf => by simp [Graph.declaredType?, hf] at h

theorem contains_of_objectParamType? {d : DeclHandle} {t : TypeHandle}
    (h : g.objectParamType? d = some t) : g.contains d = true :=
  contains_of_form_ne fun hf => by simp [Graph.objectParamType?, hf] at h

theorem contains_of_isClassDecl {d : DeclHandle} (h : g.isClassDecl d = true) :
    g.contains d = true :=
  contains_of_form_ne fun hf => by simp [Graph.isClassDecl, hf] at h

theorem contains_of_isTemplateDecl {d : DeclHandle} (h : g.isTemplateDecl d = true) :
    g.contains d = true :=
  contains_of_form_ne fun hf => by simp [Graph.isTemplateDecl, hf] at h

theorem contains_of_isConceptDecl {d : DeclHandle} (h : g.isConceptDecl d = true) :
    g.contains d = true :=
  contains_of_form_ne fun hf => by simp [Graph.isConceptDecl, hf] at h

theorem contains_of_isTypeParamDecl {d : DeclHandle} (h : g.isTypeParamDecl d = true) :
    g.contains d = true :=
  contains_of_form_ne fun hf => by simp [Graph.isTypeParamDecl, hf] at h

theorem Extends.declaredType? (h : g.Extends g') {d : DeclHandle} (hd : g.contains d = true) :
    g'.declaredType? d = g.declaredType? d := by
  have hc := (h.decl hd).form
  unfold Graph.declaredType?
  generalize (g.decl d).form = f, (g'.decl d).form = f' at hc ⊢
  cases hc <;> rfl

theorem Extends.objectParamType? (h : g.Extends g') {d : DeclHandle}
    (hd : g.contains d = true) : g'.objectParamType? d = g.objectParamType? d := by
  have hc := (h.decl hd).form
  unfold Graph.objectParamType?
  generalize (g.decl d).form = f, (g'.decl d).form = f' at hc ⊢
  cases hc <;> rfl

theorem Extends.isClassDecl (h : g.Extends g') {d : DeclHandle} (hd : g.contains d = true) :
    g'.isClassDecl d = g.isClassDecl d := by
  have hc := (h.decl hd).form
  unfold Graph.isClassDecl
  generalize (g.decl d).form = f, (g'.decl d).form = f' at hc ⊢
  cases hc <;> rfl

theorem Extends.isTemplateDecl (h : g.Extends g') {d : DeclHandle} (hd : g.contains d = true) :
    g'.isTemplateDecl d = g.isTemplateDecl d := by
  have hc := (h.decl hd).form
  unfold Graph.isTemplateDecl
  generalize (g.decl d).form = f, (g'.decl d).form = f' at hc ⊢
  cases hc <;> rfl

theorem Extends.isConceptDecl (h : g.Extends g') {d : DeclHandle} (hd : g.contains d = true) :
    g'.isConceptDecl d = g.isConceptDecl d := by
  have hc := (h.decl hd).form
  unfold Graph.isConceptDecl
  generalize (g.decl d).form = f, (g'.decl d).form = f' at hc ⊢
  cases hc <;> rfl

theorem Extends.isTypeParamDecl (h : g.Extends g') {d : DeclHandle}
    (hd : g.contains d = true) : g'.isTypeParamDecl d = g.isTypeParamDecl d := by
  have hc := (h.decl hd).form
  unfold Graph.isTypeParamDecl
  generalize (g.decl d).form = f, (g'.decl d).form = f' at hc ⊢
  cases hc <;> rfl

end Graph
end SemanticCore
