import Mathlib.Data.List.Basic
import SemanticCore.Constraint.Form
import SemanticCore.Proofs.Graph.Extension

/-!
# Well-formed graphs

Every node of a graph is built from nodes that were there before it and are of the right sort: a
class type names a class, a check names a concept, a reference names a declaration that has a
type, and so on.  `Form.Fits` says so for the nodes that a form mentions, one definition for each
category, and `Graph.Placed` adds the order, which is what walks through the graph end by.
A graph is `Graph.WellFormed` if every node of it is placed and the nodes of an empty translation
unit are where they belong.

`Graph.Placed.extend` is the reason why this is an invariant: whatever fits a graph fits its
extensions, so an addition has to be looked at for the one node that it adds.
-/

set_option autoImplicit false
namespace SemanticCore

/-! ## The nodes that a form mentions -/

/-- The node that a term names is in the graph. -/
def Term.Fits (g : Graph) : Term → Prop
  | type t => g.contains t = true
  | expr e => g.contains e = true
  | decl d => g.contains d = true

/-- The expression that a term is, if it is one. -/
def Term.expr? : Term → Option ExprHandle
  | expr e => some e
  | _ => none

/-- A placeholder is never named by its number from outside, so the only placeholders that fit are
those that are there. -/
def NameForm.Fits (g : Graph) : NameForm → Prop
  | simple s => s.index < g.symbols.size
  | placeholder n => ∃ m : NameHandle, g.contains m = true ∧ g.name m = .placeholder n
  | template d args => g.isTemplateDecl d = true ∧ ∀ a ∈ args, a.Fits g
  | concept d args => g.isConceptDecl d = true ∧ ∀ a ∈ args, a.Fits g
  | qualified scope n => g.contains scope = true ∧ g.contains n = true
  | global => True

/-- The names inside a name. -/
def NameForm.parts : NameForm → List NameHandle
  | qualified _ n => [n]
  | _ => []

/-- A qualified type adds qualifiers to a type that is neither qualified nor a reference; the
placeholders that fit are those that are there. -/
def TypeForm.Fits (g : Graph) : TypeForm → Prop
  | auto n => ∃ t : TypeHandle, g.contains t = true ∧ g.type t = .auto n
  | declauto n => ∃ t : TypeHandle, g.contains t = true ∧ g.type t = .declauto n
  | function params ret => (∀ p ∈ params, g.contains p = true) ∧ g.contains ret = true
  | qualified base quals => g.contains base = true ∧ (g.type base).isReference = false ∧
      (g.type base).isQualified = false ∧ quals.isNone = false
  | pointer t | reference t | sequence t => g.contains t = true
  | ofClass d => g.isClassDecl d = true
  | typename d => g.isTypeParamDecl d = true
  | archetype d => g.contains d = true
  | void | bool | int _ _ | float => True

/-- Where the form of an expression fixes its type, the type is the one it fixes. -/
def Expr.Fits (g : Graph) (e : Expr) : Prop :=
  g.contains e.type = true ∧
    match e.form with
    | .boolean _ => e.type = .bool
    | .integer _ => True
    | .reference d => ∃ t, g.declaredType? d = some t ∧ g.type e.type = .reference t
    | .templateRef d => g.isTemplateDecl d = true ∧ ∃ n, g.type e.type = .auto n
    | .check c args => g.isConceptDecl c = true ∧ e.type = .bool ∧ ∀ a ∈ args, a.Fits g
    | .binary _ lhs rhs => g.contains lhs = true ∧ g.contains rhs = true
    | .not x => g.contains x = true
    | .call callee args => g.contains callee = true ∧ ∀ a ∈ args, g.contains a = true
    | .conversion _ x => g.contains x = true
    | .synthetic d => g.declaredType? d = some e.type
    | .requires tparams params reqs => e.type = .bool ∧ (∀ d ∈ tparams, g.contains d = true) ∧
        (∀ d ∈ params, g.contains d = true) ∧ ∀ r ∈ reqs, g.contains r = true

/-- The expressions directly inside an expression, also those of its requirements. -/
def ExprForm.operands (g : Graph) : ExprForm → List ExprHandle
  | check _ args => args.filterMap Term.expr?
  | binary _ lhs rhs => [lhs, rhs]
  | not x => [x]
  | call callee args => callee :: args
  | conversion _ x => [x]
  | requires _ _ reqs => reqs.filterMap fun r => (g.req r).expr?
  | _ => []

/-- The type of a function is made of the types of its parameters, all of them object
parameters. -/
def DeclForm.Fits (g : Graph) : DeclForm → Prop
  | ofNamespace => True
  | var t init => g.contains t = true ∧ ∀ i, init = some i → g.contains i = true
  | function t params defn => (∃ ts ret, g.type t = .function ts ret ∧
      params.map g.objectParamType? = ts.map some) ∧ ∀ d, defn = some d → g.contains d = true
  | ofClass defn => ∀ d, defn = some d → g.contains d = true
  | template params pattern constraint => (∀ d ∈ params, g.contains d = true) ∧
      g.contains pattern = true ∧ ∀ e, constraint = some e → g.contains e = true
  | concept params defn => (∀ d ∈ params, g.contains d = true) ∧
      ∀ d, defn = some d → g.contains d = true
  | objectParam t | valueParam t => g.contains t = true
  | typeParam default => ∀ t, default = some t → g.contains t = true

def Decl.Fits (g : Graph) (d : Decl) : Prop :=
  g.contains d.name = true ∧ (∀ c, d.context = some c → g.contains c = true) ∧ d.form.Fits g

def StmtForm.Fits (g : Graph) : StmtForm → Prop
  | compound stmts => ∀ s ∈ stmts, g.contains s = true
  | ret e | expr e => g.contains e = true
  | decl d => g.contains d = true

def DefForm.Fits (g : Graph) : DefForm → Prop
  | deleted | defaulted => True
  | expr e => g.contains e = true
  | function body => g.contains body = true
  | ofClass members => ∀ d ∈ members, g.contains d = true
  | concept reqs => ∀ r ∈ reqs, g.contains r = true

def InitForm.Fits (g : Graph) : InitForm → Prop
  | trivial => True
  | copy e | bind e => g.contains e = true
  | direct ctor args => g.contains ctor = true ∧ ∀ e ∈ args, g.contains e = true
  | aggregate elements => ∀ e ∈ elements, g.contains e = true

def Init.Fits (g : Graph) (i : Init) : Prop :=
  g.contains i.type = true ∧ i.form.Fits g

/-- The operands of a connective are different and stand in the order of their handles. -/
def ConsForm.Fits (g : Graph) : ConsForm → Prop
  | concept d args => g.isConceptDecl d = true ∧ ∀ a ∈ args, a.Fits g
  | predicate e => g.contains e = true
  | conjunction lhs rhs | disjunction lhs rhs =>
    g.contains lhs = true ∧ g.contains rhs = true ∧ lhs < rhs

/-- The constraints inside a constraint. -/
def ConsForm.operands : ConsForm → List ConsHandle
  | conjunction lhs rhs | disjunction lhs rhs => [lhs, rhs]
  | _ => []

def ReqForm.Fits (g : Graph) : ReqForm → Prop
  | basic e => g.contains e = true
  | type t => g.contains t = true
  | conversion e t => g.contains e = true ∧ g.contains t = true

/-! ## What fits a graph fits its extensions -/

section Extend

variable {g g' : Graph}

theorem Term.Fits.extend (h : g.Extends g') {a : Term} (ha : a.Fits g) : a.Fits g' := by
  cases a with
  | type t => exact h.contains ha
  | expr e => exact h.contains ha
  | decl d => exact h.contains ha

theorem Graph.Extends.containsAll (h : g.Extends g') {c : Category} {xs : List (Handle c)}
    (hxs : ∀ x ∈ xs, g.contains x = true) : ∀ x ∈ xs, g'.contains x = true :=
  fun x hx => h.contains (hxs x hx)

theorem Graph.Extends.contains? (h : g.Extends g') {c : Category} {x? : Option (Handle c)}
    (hx : ∀ x, x? = some x → g.contains x = true) : ∀ x, x? = some x → g'.contains x = true :=
  fun x hx? => h.contains (hx x hx?)

theorem Graph.Extends.termsFit (h : g.Extends g') {args : List Term}
    (ha : ∀ a ∈ args, a.Fits g) : ∀ a ∈ args, a.Fits g' :=
  fun a hmem => (ha a hmem).extend h

theorem NameForm.Fits.extend (h : g.Extends g') {f : NameForm} (hf : f.Fits g) : f.Fits g' := by
  cases f with
  | simple s => exact Nat.lt_of_lt_of_le hf h.symbols.size_le
  | placeholder n =>
    obtain ⟨m, hm, hn⟩ := hf
    exact ⟨m, h.contains hm, (h.name hm).trans hn⟩
  | template d args =>
    exact ⟨(h.isTemplateDecl (Graph.contains_of_isTemplateDecl hf.1)).trans hf.1,
      h.termsFit hf.2⟩
  | concept d args =>
    exact ⟨(h.isConceptDecl (Graph.contains_of_isConceptDecl hf.1)).trans hf.1, h.termsFit hf.2⟩
  | qualified scope n => exact ⟨h.contains hf.1, h.contains hf.2⟩
  | global => trivial

theorem TypeForm.Fits.extend (h : g.Extends g') {f : TypeForm} (hf : f.Fits g) : f.Fits g' := by
  cases f with
  | auto n | declauto n =>
    obtain ⟨t, ht, hn⟩ := hf
    exact ⟨t, h.contains ht, (h.type ht).trans hn⟩
  | function params ret => exact ⟨h.containsAll hf.1, h.contains hf.2⟩
  | qualified base quals =>
    obtain ⟨hb, hr, hq, hn⟩ := hf
    refine ⟨h.contains hb, ?_, ?_, hn⟩
    · rwa [h.type hb]
    · rwa [h.type hb]
  | pointer t | reference t | sequence t => exact h.contains hf
  | ofClass d => exact (h.isClassDecl (Graph.contains_of_isClassDecl hf)).trans hf
  | typename d => exact (h.isTypeParamDecl (Graph.contains_of_isTypeParamDecl hf)).trans hf
  | archetype d => exact h.contains hf
  | void | bool | int _ _ | float => trivial

theorem Expr.Fits.extend (h : g.Extends g') {e : Expr} (he : e.Fits g) : e.Fits g' := by
  obtain ⟨form, t⟩ := e
  obtain ⟨ht, hf⟩ := he
  refine ⟨h.contains ht, ?_⟩
  cases form with
  | boolean _ | integer _ => exact hf
  | reference d =>
    obtain ⟨s, hd, hs⟩ := hf
    exact ⟨s, (h.declaredType? (Graph.contains_of_declaredType? hd)).trans hd,
      (h.type ht).trans hs⟩
  | templateRef d =>
    obtain ⟨hd, n, hn⟩ := hf
    exact ⟨(h.isTemplateDecl (Graph.contains_of_isTemplateDecl hd)).trans hd, n,
      (h.type ht).trans hn⟩
  | check c args =>
    obtain ⟨hc, hb, ha⟩ := hf
    exact ⟨(h.isConceptDecl (Graph.contains_of_isConceptDecl hc)).trans hc, hb, h.termsFit ha⟩
  | binary _ lhs rhs => exact ⟨h.contains hf.1, h.contains hf.2⟩
  | not x => exact h.contains hf
  | call callee args => exact ⟨h.contains hf.1, h.containsAll hf.2⟩
  | conversion _ x => exact h.contains hf
  | synthetic d => exact (h.declaredType? (Graph.contains_of_declaredType? hf)).trans hf
  | requires tparams params reqs =>
    obtain ⟨hb, ht, hp, hr⟩ := hf
    exact ⟨hb, h.containsAll ht, h.containsAll hp, h.containsAll hr⟩

theorem contains_of_map_objectParamType? {params : List DeclHandle} {ts : List TypeHandle}
    (hp : params.map g.objectParamType? = ts.map some) {p : DeclHandle} (hmem : p ∈ params) :
    g.contains p = true := by
  have hsome : g.objectParamType? p ∈ ts.map some := hp ▸ List.mem_map_of_mem hmem
  obtain ⟨t, -, ht⟩ := List.mem_map.1 hsome
  exact Graph.contains_of_objectParamType? ht.symm

theorem Graph.contains_of_type_ne {t : TypeHandle} (h : g.type t ≠ .void) :
    g.contains t = true := by
  rw [contains_iff]
  by_contra ht
  refine h ?_
  rw [Graph.type, Array.getElem?_eq_none (Nat.le_of_not_lt ht)]
  rfl

theorem DeclForm.Fits.extend (h : g.Extends g') {f : DeclForm} (hf : f.Fits g) : f.Fits g' := by
  cases f with
  | ofNamespace => trivial
  | var t init => exact ⟨h.contains hf.1, h.contains? hf.2⟩
  | function t params defn =>
    obtain ⟨⟨ts, ret, ht, hp⟩, hd⟩ := hf
    refine ⟨⟨ts, ret, ?_, ?_⟩, h.contains? hd⟩
    · exact (h.type (Graph.contains_of_type_ne (by simp [ht]))).trans ht
    · rw [← hp]
      exact List.map_congr_left fun p hmem =>
        h.objectParamType? (contains_of_map_objectParamType? hp hmem)
  | ofClass defn => exact h.contains? hf
  | template params pattern constraint =>
    exact ⟨h.containsAll hf.1, h.contains hf.2.1, h.contains? hf.2.2⟩
  | concept params defn => exact ⟨h.containsAll hf.1, h.contains? hf.2⟩
  | objectParam t | valueParam t => exact h.contains hf
  | typeParam default => exact h.contains? hf

theorem Decl.Fits.extend (h : g.Extends g') {d : Decl} (hd : d.Fits g) : d.Fits g' :=
  ⟨h.contains hd.1, h.contains? hd.2.1, hd.2.2.extend h⟩

theorem StmtForm.Fits.extend (h : g.Extends g') {f : StmtForm} (hf : f.Fits g) : f.Fits g' := by
  cases f with
  | compound stmts => exact h.containsAll hf
  | ret e | expr e => exact h.contains hf
  | decl d => exact h.contains hf

theorem DefForm.Fits.extend (h : g.Extends g') {f : DefForm} (hf : f.Fits g) : f.Fits g' := by
  cases f with
  | deleted | defaulted => trivial
  | expr e => exact h.contains hf
  | function body => exact h.contains hf
  | ofClass members => exact h.containsAll hf
  | concept reqs => exact h.containsAll hf

theorem InitForm.Fits.extend (h : g.Extends g') {f : InitForm} (hf : f.Fits g) : f.Fits g' := by
  cases f with
  | trivial => trivial
  | copy e | bind e => exact h.contains hf
  | direct ctor args => exact ⟨h.contains hf.1, h.containsAll hf.2⟩
  | aggregate elements => exact h.containsAll hf

theorem Init.Fits.extend (h : g.Extends g') {i : Init} (hi : i.Fits g) : i.Fits g' :=
  ⟨h.contains hi.1, hi.2.extend h⟩

theorem ConsForm.Fits.extend (h : g.Extends g') {f : ConsForm} (hf : f.Fits g) : f.Fits g' := by
  cases f with
  | concept d args =>
    exact ⟨(h.isConceptDecl (Graph.contains_of_isConceptDecl hf.1)).trans hf.1, h.termsFit hf.2⟩
  | predicate e => exact h.contains hf
  | conjunction lhs rhs | disjunction lhs rhs =>
    exact ⟨h.contains hf.1, h.contains hf.2.1, hf.2.2⟩

theorem ReqForm.Fits.extend (h : g.Extends g') {f : ReqForm} (hf : f.Fits g) : f.Fits g' := by
  cases f with
  | basic e => exact h.contains hf
  | type t => exact h.contains hf
  | conversion e t => exact ⟨h.contains hf.1, h.contains hf.2⟩

end Extend

/-! ## Placed nodes -/

namespace Graph

variable {g g' : Graph}

/-- The node that a handle names fits the graph and comes after the nodes of its own category that
it is built from.  The flags of a type are those that its form asks for. -/
def Placed (g : Graph) : {c : Category} → Handle c → Prop
  | .name, n => (g.name n).Fits g ∧ ∀ m ∈ (g.name n).parts, m < n
  | .type, t => (g.type t).Fits g ∧ (∀ s ∈ (g.type t).components, s < t) ∧
      g.typeFlags t = g.flagsOf (g.type t)
  | .expr, e => (g.expr e).Fits g ∧ ∀ x ∈ (g.expr e).form.operands g, x < e
  | .decl, d => (g.decl d).Fits g
  | .stmt, s => (g.stmt s).Fits g
  | .defn, d => (g.defn d).Fits g
  | .init, i => (g.init i).Fits g
  | .cons, k => (g.cons k).Fits g ∧ ∀ x ∈ (g.cons k).operands, x < k
  | .req, r => (g.req r).Fits g

/-- Every node is placed, and the nodes of an empty translation unit are at their handles. -/
structure WellFormed (g : Graph) : Prop where
  placed : ∀ {c : Category} (x : Handle c), g.contains x = true → g.Placed x
  flags_size : g.flags.size = g.types.size
  globalName : g.contains Handle.globalName = true
  globalNamespace : g.contains Handle.globalNamespace = true
  void : g.types.nodes[0]? = some .void
  bool : g.types.nodes[1]? = some .bool
  float : g.types.nodes[2]? = some .float

theorem WellFormed.contains_void (hg : g.WellFormed) : g.contains Handle.void = true :=
  contains_iff.2 (Array.getElem?_eq_some_iff.1 hg.void).1

theorem WellFormed.contains_bool (hg : g.WellFormed) : g.contains Handle.bool = true :=
  contains_iff.2 (Array.getElem?_eq_some_iff.1 hg.bool).1

theorem WellFormed.contains_float (hg : g.WellFormed) : g.contains Handle.float = true :=
  contains_iff.2 (Array.getElem?_eq_some_iff.1 hg.float).1

/-! ### What is known from a form -/

section Forms

variable (hg : g.WellFormed)
include hg

theorem WellFormed.fits_of_name {n : NameHandle} {f : NameForm} (hn : g.contains n = true)
    (h : g.name n = f) : f.Fits g := by
  subst h
  exact (hg.placed n hn).1

theorem WellFormed.fits_of_type {t : TypeHandle} {f : TypeForm} (ht : g.contains t = true)
    (h : g.type t = f) : f.Fits g := by
  subst h
  exact (hg.placed t ht).1

theorem WellFormed.fits_of_cons {c : ConsHandle} {f : ConsForm} (hc : g.contains c = true)
    (h : g.cons c = f) : f.Fits g := by
  subst h
  exact (hg.placed c hc).1

theorem WellFormed.fits_of_expr {e : ExprHandle} {f : ExprForm} (he : g.contains e = true)
    (h : (g.expr e).form = f) : Expr.Fits g ⟨f, g.exprType e⟩ := by
  subst h
  exact (hg.placed e he).1

theorem WellFormed.fits_of_decl {d : DeclHandle} {f : DeclForm} (h : (g.decl d).form = f)
    (hf : f ≠ .ofNamespace) : f.Fits g := by
  subst h
  exact (hg.placed d (contains_of_form_ne hf)).2.2

/-- The parameters of a function are object parameters, and their types make up its type. -/
theorem WellFormed.function_type {d : DeclHandle} {t : TypeHandle} {params : List DeclHandle}
    {defn : Option DefHandle} (h : (g.decl d).form = .function t params defn) :
    ∃ ts ret, g.type t = .function ts ret ∧ params.map g.objectParamType? = ts.map some :=
  (hg.fits_of_decl h (by rintro ⟨⟩)).1

end Forms

/-- The type that a declaration declares is in the graph. -/
theorem WellFormed.contains_declaredType? (hg : g.WellFormed) {d : DeclHandle} {t : TypeHandle}
    (h : g.declaredType? d = some t) : g.contains t = true := by
  have hd := (hg.placed d (contains_of_declaredType? h)).2.2
  rw [Graph.declaredType?] at h
  cases hf : (g.decl d).form with
  | var s init => rw [hf] at h hd; cases h; exact hd.1
  | function s params defn =>
    rw [hf] at h hd
    cases h
    obtain ⟨⟨ts, ret, ht, -⟩, -⟩ := hd
    exact contains_of_type_ne (by simp [ht])
  | objectParam s | valueParam s => rw [hf] at h hd; cases h; exact hd
  | _ => rw [hf] at h; cases h

theorem WellFormed.contains_objectParamType? (hg : g.WellFormed) {d : DeclHandle} {t : TypeHandle}
    (h : g.objectParamType? d = some t) : g.contains t = true := by
  have hd := (hg.placed d (contains_of_objectParamType? h)).2.2
  rw [Graph.objectParamType?] at h
  cases hf : (g.decl d).form with
  | objectParam s => rw [hf] at h hd; cases h; exact hd
  | _ => rw [hf] at h; cases h

/-- The parts of a template are in the graph. -/
theorem WellFormed.contains_template (hg : g.WellFormed) {d pattern : DeclHandle}
    {params : List DeclHandle} {constraint : Option ExprHandle}
    (hf : (g.decl d).form = .template params pattern constraint) :
    (∀ p ∈ params, g.contains p = true) ∧ g.contains pattern = true ∧
      ∀ e, constraint = some e → g.contains e = true :=
  hg.fits_of_decl hf (by rintro ⟨⟩)

/-- The parameters of a function are in the graph. -/
theorem WellFormed.contains_functionParams (hg : g.WellFormed) {d : DeclHandle} {t : TypeHandle}
    {params : List DeclHandle} {defn : Option DefHandle}
    (hf : (g.decl d).form = .function t params defn) : ∀ p ∈ params, g.contains p = true := by
  obtain ⟨ts, ret, -, hmap⟩ := hg.function_type hf
  exact fun p => contains_of_map_objectParamType? hmap

/-- The declaration that another one is placed in is in the graph. -/
theorem WellFormed.contains_context (hg : g.WellFormed) {d c : DeclHandle}
    (h : (g.decl d).context = some c) : g.contains c = true := by
  by_cases hd : g.contains d = true
  · exact (hg.placed d hd).2.1 c h
  · have hout : g.decls.size ≤ d.index := Nat.le_of_not_lt fun hlt => hd (contains_iff.2 hlt)
    rw [Graph.decl, Array.getElem?_eq_none hout] at h
    cases h

theorem Extends.typeFlags (h : g.Extends g') (hs : g.flags.size = g.types.size) {t : TypeHandle}
    (ht : g.contains t = true) : g'.typeFlags t = g.typeFlags t :=
  h.flags.getD_eq (hs ▸ contains_iff.1 ht) .none

theorem Extends.flagsOf (h : g.Extends g') (hs : g.flags.size = g.types.size) {f : TypeForm}
    (hf : ∀ t ∈ f.components, g.contains t = true) : g'.flagsOf f = g.flagsOf f := by
  rw [Graph.flagsOf, Graph.flagsOf, List.map_congr_left fun t ht => h.typeFlags hs (hf t ht)]

theorem Extends.operands (h : g.Extends g') {e : Expr} (he : e.Fits g) :
    e.form.operands g' = e.form.operands g := by
  obtain ⟨form, t⟩ := e
  cases form with
  | requires tparams params reqs =>
    exact List.filterMap_congr fun r hr => by rw [h.req (he.2.2.2.2 r hr)]
  | _ => rfl

/-- The components of a type that fits the graph are in it. -/
theorem fits_components {f : TypeForm} (hf : f.Fits g) :
    ∀ t ∈ f.components, g.contains t = true := by
  intro t ht
  cases f with
  | function params ret =>
    rcases List.mem_append.1 ht with hp | hr
    · exact hf.1 t hp
    · exact List.mem_singleton.1 hr ▸ hf.2
  | qualified base quals => exact List.mem_singleton.1 ht ▸ hf.1
  | pointer s | reference s | sequence s => exact List.mem_singleton.1 ht ▸ hf
  | _ => cases ht

/-! ## Nodes met on a walk -/

theorem WellFormed.component_lt (hg : g.WellFormed) {s t : TypeHandle}
    (ht : g.contains t = true) (hs : s ∈ (g.type t).components) : s < t :=
  (hg.placed t ht).2.1 s hs

theorem WellFormed.contains_component (hg : g.WellFormed) {s t : TypeHandle}
    (ht : g.contains t = true) (hs : s ∈ (g.type t).components) : g.contains s = true :=
  fits_components (hg.placed t ht).1 s hs

theorem WellFormed.contains_nonReference (hg : g.WellFormed) {t : TypeHandle}
    (ht : g.contains t = true) : g.contains (g.nonReference t) = true := by
  rw [nonReference]
  split
  · next target hf => exact hg.contains_component ht (by rw [hf]; exact List.mem_cons_self)
  · exact ht

theorem WellFormed.contains_unqualified (hg : g.WellFormed) {t : TypeHandle}
    (ht : g.contains t = true) : g.contains (g.unqualified t) = true := by
  rw [unqualified]
  split
  · next base quals hf => exact hg.contains_component ht (by rw [hf]; exact List.mem_cons_self)
  · exact ht

theorem WellFormed.contains_valueType (hg : g.WellFormed) {t : TypeHandle}
    (ht : g.contains t = true) : g.contains (g.valueType t) = true :=
  hg.contains_unqualified (hg.contains_nonReference ht)

theorem WellFormed.contains_functionRet? (hg : g.WellFormed) {t ret : TypeHandle}
    (ht : g.contains t = true) (h : g.functionRet? t = some ret) : g.contains ret = true := by
  rw [functionRet?] at h
  split at h
  · next params r hf =>
    cases h
    exact hg.contains_component ht (by rw [hf]; exact List.mem_append_right _ List.mem_cons_self)
  · cases h

theorem WellFormed.contains_exprType (hg : g.WellFormed) {e : ExprHandle}
    (he : g.contains e = true) : g.contains (g.exprType e) = true :=
  (hg.placed e he).1.1

/-- A node stays placed when the graph is extended.  Of declarations this is asked for, since they
are the nodes that change. -/
theorem WellFormed.placed_extend (hg : g.WellFormed) (h : g.Extends g')
    (hd : ∀ d : DeclHandle, g.contains d = true → (g'.decl d).Fits g') {c : Category}
    (x : Handle c) (hx : g.contains x = true) : g'.Placed x := by
  have hp := hg.placed x hx
  cases c with
  | name =>
    rw [Placed] at hp ⊢
    rw [h.name hx]
    exact ⟨hp.1.extend h, hp.2⟩
  | type =>
    rw [Placed] at hp ⊢
    obtain ⟨hf, ho, hflags⟩ := hp
    rw [h.type hx, h.typeFlags hg.flags_size hx, h.flagsOf hg.flags_size (fits_components hf)]
    exact ⟨hf.extend h, ho, hflags⟩
  | expr =>
    rw [Placed] at hp ⊢
    rw [h.expr hx, h.operands hp.1]
    exact ⟨hp.1.extend h, hp.2⟩
  | decl => exact hd x hx
  | stmt =>
    rw [Placed] at hp ⊢
    rw [h.stmt hx]
    exact hp.extend h
  | defn =>
    rw [Placed] at hp ⊢
    rw [h.defn hx]
    exact hp.extend h
  | init =>
    rw [Placed] at hp ⊢
    rw [h.init hx]
    exact hp.extend h
  | cons =>
    rw [Placed] at hp ⊢
    rw [h.cons hx]
    exact ⟨hp.1.extend h, hp.2⟩
  | req =>
    rw [Placed] at hp ⊢
    rw [h.req hx]
    exact hp.extend h

/-- **An extension of a well-formed graph is well-formed** if the nodes that it adds are placed,
and the declarations that it may have changed still fit. -/
theorem WellFormed.extend (hg : g.WellFormed) (h : g.Extends g')
    (hflags : g'.flags.size = g'.types.size)
    (hd : ∀ d : DeclHandle, g.contains d = true → (g'.decl d).Fits g')
    (hnew : ∀ {c : Category} (x : Handle c), g'.contains x = true →
      g.contains x = true ∨ g'.Placed x) : g'.WellFormed where
  placed x hx := (hnew x hx).elim (hg.placed_extend h hd x) id
  flags_size := hflags
  globalName := h.contains hg.globalName
  globalNamespace := h.contains hg.globalNamespace
  void := h.types _ _ hg.void
  bool := h.types _ _ hg.bool
  float := h.types _ _ hg.float

end Graph
end SemanticCore
