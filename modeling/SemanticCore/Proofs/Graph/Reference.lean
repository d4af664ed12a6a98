import SemanticCore.Proofs.Graph.Growth

/-!
# References between nodes

`Graph.references` has the nodes that a node mentions, of whatever category they are.  In a
well-formed graph a reference always leads to a node, and so does any chain of references, so no
walk through the graph leaves it.

Most references lead back to what was there before.  `Graph.Built gs g` says that the graph `g` is
the result of additions to the graph without nodes, and has the graphs on the way.  Whatever the
additions were, a node other than a declaration was added to a graph that had all its references
(`Graph.Built.created_after`).  A declaration may be placed, defined and initialized later on, so
its references may lead anywhere.
-/

set_option autoImplicit false
namespace SemanticCore

/-- A node of any category. -/
abbrev Node := (c : Category) × Handle c

/-- Nodes of one category. -/
def nodes {c : Category} (hs : List (Handle c)) : List Node :=
  hs.map (Sigma.mk c)

/-! ## The references of a form -/

/-- The node that a term is. -/
def Term.node : Term → Node
  | type t => ⟨_, t⟩
  | expr e => ⟨_, e⟩
  | decl d => ⟨_, d⟩

def NameForm.references : NameForm → List Node
  | template d args | concept d args => ⟨_, d⟩ :: args.map Term.node
  | qualified scope n => [⟨_, scope⟩, ⟨_, n⟩]
  | simple _ | placeholder _ | global => []

def TypeForm.references : TypeForm → List Node
  | ofClass d | typename d | archetype d => [⟨_, d⟩]
  | f => nodes f.components

def ExprForm.references : ExprForm → List Node
  | boolean _ | integer _ => []
  | reference d | templateRef d | synthetic d => [⟨_, d⟩]
  | check c args => ⟨_, c⟩ :: args.map Term.node
  | binary _ lhs rhs => nodes [lhs, rhs]
  | not x | conversion _ x => nodes [x]
  | call callee args => nodes (callee :: args)
  | requires tparams params reqs => nodes tparams ++ nodes params ++ nodes reqs

def DeclForm.references : DeclForm → List Node
  | ofNamespace => []
  | var t init => ⟨_, t⟩ :: nodes init.toList
  | function t params defn => ⟨_, t⟩ :: (nodes params ++ nodes defn.toList)
  | ofClass defn => nodes defn.toList
  | template params pattern constraint =>
    ⟨_, pattern⟩ :: (nodes params ++ nodes constraint.toList)
  | concept params defn => nodes params ++ nodes defn.toList
  | objectParam t | valueParam t => nodes [t]
  | typeParam default => nodes default.toList

def StmtForm.references : StmtForm → List Node
  | compound stmts => nodes stmts
  | ret e | expr e => nodes [e]
  | decl d => nodes [d]

def DefForm.references : DefForm → List Node
  | deleted | defaulted => []
  | expr e => nodes [e]
  | function body => nodes [body]
  | ofClass members => nodes members
  | concept reqs => nodes reqs

def InitForm.references : InitForm → List Node
  | trivial => []
  | copy e | bind e => nodes [e]
  | direct ctor args => ⟨_, ctor⟩ :: nodes args
  | aggregate elements => nodes elements

def ConsForm.references : ConsForm → List Node
  | concept d args => ⟨_, d⟩ :: args.map Term.node
  | predicate e => nodes [e]
  | conjunction lhs rhs | disjunction lhs rhs => nodes [lhs, rhs]

def ReqForm.references : ReqForm → List Node
  | basic e => nodes [e]
  | type t => nodes [t]
  | conversion e t => [⟨_, e⟩, ⟨_, t⟩]

def Expr.references (e : Expr) : List Node :=
  ⟨_, e.type⟩ :: e.form.references

def Decl.references (d : Decl) : List Node :=
  ⟨_, d.name⟩ :: (nodes d.context.toList ++ d.form.references)

def Init.references (i : Init) : List Node :=
  ⟨_, i.type⟩ :: i.form.references

/-- The nodes whose handles are stored in a node. -/
def Graph.references (g : Graph) : Node → List Node
  | ⟨.name, n⟩ => (g.name n).references
  | ⟨.type, t⟩ => (g.type t).references
  | ⟨.expr, e⟩ => (g.expr e).references
  | ⟨.decl, d⟩ => (g.decl d).references
  | ⟨.stmt, s⟩ => (g.stmt s).references
  | ⟨.defn, d⟩ => (g.defn d).references
  | ⟨.init, i⟩ => (g.init i).references
  | ⟨.cons, k⟩ => (g.cons k).references
  | ⟨.req, r⟩ => (g.req r).references

/-- All the nodes are in the graph. -/
def Graph.Has (g : Graph) (xs : List Node) : Prop :=
  ∀ x ∈ xs, g.contains x.2 = true

/-! ## What fits refers to nodes of the graph -/

section Fits

variable {g : Graph}

namespace Graph.Has

theorem nil : g.Has [] := List.forall_mem_nil _

theorem cons {c : Category} {x : Handle c} {xs : List Node} (hx : g.contains x = true)
    (hxs : g.Has xs) : g.Has (⟨c, x⟩ :: xs) :=
  List.forall_mem_cons.2 ⟨hx, hxs⟩

theorem append {xs ys : List Node} (hxs : g.Has xs) (hys : g.Has ys) : g.Has (xs ++ ys) :=
  List.forall_mem_append.2 ⟨hxs, hys⟩

theorem nodes {c : Category} {hs : List (Handle c)} (h : ∀ x ∈ hs, g.contains x = true) :
    g.Has (nodes hs) :=
  List.forall_mem_map.2 h

theorem node {c : Category} {x : Handle c} (hx : g.contains x = true) :
    g.Has (SemanticCore.nodes [x]) :=
  cons hx nil

theorem optional {c : Category} {x? : Option (Handle c)}
    (h : ∀ x, x? = some x → g.contains x = true) : g.Has (SemanticCore.nodes x?.toList) :=
  nodes fun x hx => h x (Option.mem_toList.1 hx)

theorem terms {args : List Term} (h : ∀ a ∈ args, a.Fits g) : g.Has (args.map Term.node) := by
  refine List.forall_mem_map.2 fun a ha => ?_
  have hfit := h a ha
  cases a with
  | type t => exact hfit
  | expr e => exact hfit
  | decl d => exact hfit

end Graph.Has

open SemanticCore.Graph SemanticCore.Graph.Has

theorem NameForm.Fits.has {f : NameForm} (hf : f.Fits g) : g.Has f.references := by
  cases f with
  | template d args => exact .cons (contains_of_isTemplateDecl hf.1) (.terms hf.2)
  | concept d args => exact .cons (contains_of_isConceptDecl hf.1) (.terms hf.2)
  | qualified scope n => exact .cons hf.1 (.node hf.2)
  | simple _ | placeholder _ | global => exact .nil

theorem TypeForm.Fits.has {f : TypeForm} (hf : f.Fits g) : g.Has f.references := by
  cases f with
  | ofClass d => exact .node (contains_of_isClassDecl hf)
  | typename d => exact .node (contains_of_isTypeParamDecl hf)
  | archetype d => exact .node hf
  | _ => exact .nodes (fits_components hf)

theorem Expr.Fits.has {e : Expr} (he : e.Fits g) : g.Has e.references := by
  obtain ⟨form, t⟩ := e
  obtain ⟨ht, hf⟩ := he
  refine .cons ht ?_
  cases form with
  | boolean _ | integer _ => exact .nil
  | reference d =>
    obtain ⟨_, hd, -⟩ := hf
    exact .node (contains_of_declaredType? hd)
  | templateRef d => exact .node (contains_of_isTemplateDecl hf.1)
  | synthetic d => exact .node (contains_of_declaredType? hf)
  | check c args => exact .cons (contains_of_isConceptDecl hf.1) (.terms hf.2.2)
  | binary _ lhs rhs => exact .cons hf.1 (.node hf.2)
  | not x | conversion _ x => exact .node hf
  | call callee args => exact .cons hf.1 (.nodes hf.2)
  | requires tparams params reqs =>
    exact .append (.append (.nodes hf.2.1) (.nodes hf.2.2.1)) (.nodes hf.2.2.2)

theorem DeclForm.Fits.has {f : DeclForm} (hf : f.Fits g) : g.Has f.references := by
  cases f with
  | ofNamespace => exact .nil
  | var t init => exact .cons hf.1 (.optional hf.2)
  | function t params defn =>
    obtain ⟨⟨ts, ret, ht, hp⟩, hd⟩ := hf
    exact .cons (contains_of_type_ne (by simp [ht])) (.append
      (.nodes fun _ hmem => contains_of_map_objectParamType? hp hmem) (.optional hd))
  | ofClass defn => exact .optional hf
  | template params pattern constraint =>
    exact .cons hf.2.1 (.append (.nodes hf.1) (.optional hf.2.2))
  | concept params defn => exact .append (.nodes hf.1) (.optional hf.2)
  | objectParam t | valueParam t => exact .node hf
  | typeParam default => exact .optional hf

theorem Decl.Fits.has {d : Decl} (hd : d.Fits g) : g.Has d.references :=
  .cons hd.1 (.append (.optional hd.2.1) hd.2.2.has)

theorem StmtForm.Fits.has {f : StmtForm} (hf : f.Fits g) : g.Has f.references := by
  cases f with
  | compound stmts => exact .nodes hf
  | ret e | expr e => exact .node hf
  | decl d => exact .node hf

theorem DefForm.Fits.has {f : DefForm} (hf : f.Fits g) : g.Has f.references := by
  cases f with
  | deleted | defaulted => exact .nil
  | expr e => exact .node hf
  | function body => exact .node hf
  | ofClass members => exact .nodes hf
  | concept reqs => exact .nodes hf

theorem Init.Fits.has {i : Init} (hi : i.Fits g) : g.Has i.references := by
  obtain ⟨form, t⟩ := i
  obtain ⟨ht, hf⟩ := hi
  refine .cons ht ?_
  cases form with
  | trivial => exact .nil
  | copy e | bind e => exact .node hf
  | direct ctor args => exact .cons hf.1 (.nodes hf.2)
  | aggregate elements => exact .nodes hf

theorem ConsForm.Fits.has {f : ConsForm} (hf : f.Fits g) : g.Has f.references := by
  cases f with
  | concept d args => exact .cons (contains_of_isConceptDecl hf.1) (.terms hf.2)
  | predicate e => exact .node hf
  | conjunction lhs rhs | disjunction lhs rhs => exact .cons hf.1 (.node hf.2.1)

theorem ReqForm.Fits.has {f : ReqForm} (hf : f.Fits g) : g.Has f.references := by
  cases f with
  | basic e => exact .node hf
  | type t => exact .node hf
  | conversion e t => exact .cons hf.1 (.node hf.2)

end Fits

namespace Graph

variable {g g' : Graph}

/-- **Every reference of a well-formed graph leads to a node.** -/
theorem WellFormed.has_references (hg : g.WellFormed) {x : Node} (hx : g.contains x.2 = true) :
    g.Has (g.references x) := by
  obtain ⟨c, h⟩ := x
  have hp := hg.placed h hx
  cases c with
  | name | type | expr | cons => exact hp.1.has
  | decl => exact Decl.Fits.has hp
  | stmt => exact StmtForm.Fits.has hp
  | defn => exact DefForm.Fits.has hp
  | init => exact Init.Fits.has hp
  | req => exact ReqForm.Fits.has hp

/-- A chain of references stays in the graph. -/
theorem WellFormed.contains_of_reaches (hg : g.WellFormed) {x y : Node}
    (hx : g.contains x.2 = true)
    (h : Relation.ReflTransGen (fun a b => b ∈ g.references a) x y) : g.contains y.2 = true := by
  induction h with
  | refl => exact hx
  | tail _ hstep ih => exact hg.has_references ih _ hstep

/-- What a node refers to, other than a declaration, stays as it is. -/
theorem Extends.references (h : g.Extends g') {x : Node} (hd : x.1 ≠ .decl)
    (hx : g.contains x.2 = true) : g'.references x = g.references x := by
  obtain ⟨c, a⟩ := x
  cases c with
  | name => exact congrArg NameForm.references (h.name hx)
  | type => exact congrArg TypeForm.references (h.type hx)
  | expr => exact congrArg Expr.references (h.expr hx)
  | decl => exact absurd rfl hd
  | stmt => exact congrArg StmtForm.references (h.stmt hx)
  | defn => exact congrArg DefForm.references (h.defn hx)
  | init => exact congrArg Init.references (h.init hx)
  | cons => exact congrArg ConsForm.references (h.cons hx)
  | req => exact congrArg ReqForm.references (h.req hx)

/-! ## What the references of a new node lead to -/

/-- An element that was not there before a push is the one pushed. -/
theorem getD_push_new {κ : Type} {a : Array κ} {x : κ} {i : Nat} (hi : ¬ i < a.size)
    (hi' : i < (a.push x).size) (k : κ) : (a.push x)[i]?.getD k = x := by
  rw [Array.size_push] at hi'
  rw [getD_push, if_pos (by omega)]

/-- A value that was not there before it was interned is the one interned. -/
theorem getD_intern_new {κ : Type} [Coded κ] {t : Interned κ} {k : κ} {i : Nat}
    (hi : ¬ i < t.size) (hi' : i < (t.intern k).2.size) (d : κ) :
    (t.intern k).2.nodes[i]?.getD d = k := by
  rcases t.intern_cases k with ⟨_, -, h⟩ | ⟨-, -, h⟩
  · rw [h] at hi'
    exact absurd hi' hi
  · rw [Interned.size, h] at hi'
    rw [h]
    exact getD_push_new hi hi' d

/-- Whatever is in the second graph only, and is no declaration, refers to nodes of the first. -/
def RefersBack (g g' : Graph) : Prop :=
  ∀ x : Node, x.1 ≠ .decl → g.contains x.2 = false → g'.contains x.2 = true →
    g.Has (g'.references x)

/-- Only one category has to be looked at, the one that has grown. -/
theorem refersBack_of_count {c : Category} (hcount : ∀ c', c' ≠ c → g'.count c' = g.count c')
    (hnew : c ≠ .decl → ∀ a : Handle c, ¬ a.index < g.count c → a.index < g'.count c →
      g.Has (g'.references ⟨c, a⟩)) : g.RefersBack g' := by
  rintro ⟨c', a⟩ hd hx hx'
  have hi : ¬ a.index < g.count c' := fun hlt => by
    rw [contains_iff.2 hlt] at hx
    cases hx
  have hi' := contains_iff.1 hx'
  by_cases hc : c' = c
  · subst hc
    exact hnew hd a hi hi'
  · rw [hcount c' hc] at hi'
    exact absurd hi' hi

/-- Nothing has to be looked at if only declarations have changed. -/
theorem refersBack_of_decls (hcount : ∀ c, c ≠ .decl → g'.count c = g.count c) :
    g.RefersBack g' :=
  refersBack_of_count hcount fun h => absurd rfl h

theorem refersBack_name {f : NameForm} (hf : g.Has f.references) :
    g.RefersBack (Build.name f g).2 := by
  refine refersBack_of_count (c := .name) (by rintro ⟨⟩ h <;> trivial) fun _ a hi hi' => ?_
  have hget : Graph.name (Build.name f g).2 a = f := getD_intern_new hi hi' _
  rw [Graph.references, hget]
  exact hf

theorem refersBack_type {f : TypeForm} (hf : g.Has f.references) :
    g.RefersBack (Build.type f g).2 := by
  rcases Build.type_cases f g with ⟨t, -, ht⟩ | ⟨-, types, hn, ht⟩
  · rw [ht]
    exact refersBack_of_decls fun _ _ => rfl
  · rw [ht]
    refine refersBack_of_count (c := .type) (by rintro ⟨⟩ h <;> trivial) fun _ a hi hi' => ?_
    rw [Graph.references, Graph.type, hn]
    rw [Graph.count, Interned.size, hn] at hi'
    rw [getD_push_new hi hi']
    exact hf

theorem refersBack_constraint {f : ConsForm} (hf : g.Has f.references) :
    g.RefersBack (Build.constraint f g).2 := by
  refine refersBack_of_count (c := .cons) (by rintro ⟨⟩ h <;> trivial) fun _ a hi hi' => ?_
  have hget : Graph.cons (Build.constraint f g).2 a = f := getD_intern_new hi hi' _
  rw [Graph.references, hget]
  exact hf

theorem refersBack_expr {f : ExprForm} {t : TypeHandle} (hf : g.Has (Expr.references ⟨f, t⟩)) :
    g.RefersBack (Build.expr f t g).2 := by
  refine refersBack_of_count (c := .expr) (by rintro ⟨⟩ h <;> trivial) fun _ a hi hi' => ?_
  have hget : Graph.expr (Build.expr f t g).2 a = ⟨f, t⟩ := getD_push_new hi hi' _
  rw [Graph.references, hget]
  exact hf

theorem refersBack_stmt {f : StmtForm} (hf : g.Has f.references) :
    g.RefersBack (Build.stmt f g).2 := by
  refine refersBack_of_count (c := .stmt) (by rintro ⟨⟩ h <;> trivial) fun _ a hi hi' => ?_
  have hget : Graph.stmt (Build.stmt f g).2 a = f := getD_push_new hi hi' _
  rw [Graph.references, hget]
  exact hf

theorem refersBack_defn {f : DefForm} (hf : g.Has f.references) :
    g.RefersBack (Build.defn f g).2 := by
  refine refersBack_of_count (c := .defn) (by rintro ⟨⟩ h <;> trivial) fun _ a hi hi' => ?_
  have hget : Graph.defn (Build.defn f g).2 a = f := getD_push_new hi hi' _
  rw [Graph.references, hget]
  exact hf

theorem refersBack_init {f : InitForm} {t : TypeHandle} (hf : g.Has (Init.references ⟨f, t⟩)) :
    g.RefersBack (Build.init f t g).2 := by
  refine refersBack_of_count (c := .init) (by rintro ⟨⟩ h <;> trivial) fun _ a hi hi' => ?_
  have hget : Graph.init (Build.init f t g).2 a = ⟨f, t⟩ := getD_push_new hi hi' _
  rw [Graph.references, hget]
  exact hf

theorem refersBack_req {f : ReqForm} (hf : g.Has f.references) :
    g.RefersBack (Build.req f g).2 := by
  refine refersBack_of_count (c := .req) (by rintro ⟨⟩ h <;> trivial) fun _ a hi hi' => ?_
  have hget : Graph.req (Build.req f g).2 a = f := getD_push_new hi hi' _
  rw [Graph.references, hget]
  exact hf

/-- **The node that an addition adds refers to nodes that were there before**, if it is no
declaration. -/
theorem Addition.refersBack (h : g.Addition g') : g.RefersBack g' := by
  cases h with
  | symbol s => exact refersBack_of_decls fun _ _ => rfl
  | placeholderName => exact refersBack_name (g := (Build.fresh g).2) .nil
  | autoType | declautoType => exact refersBack_type (g := (Build.fresh g).2) .nil
  | name hf => exact refersBack_name hf.has
  | type hf => exact refersBack_type hf.has
  | constraint hf => exact refersBack_constraint hf.has
  | expr hf => exact refersBack_expr hf.has
  | stmt hf => exact refersBack_stmt hf.has
  | defn hf => exact refersBack_defn hf.has
  | init hf => exact refersBack_init hf.has
  | req hf => exact refersBack_req hf.has
  | decl hn hf => exact refersBack_of_decls (by rintro ⟨⟩ h <;> trivial)
  | place d hc => exact refersBack_of_decls (by rintro ⟨⟩ h <;> trivial)
  | @define d x hx =>
    rcases g.define_cases d x with h | ⟨-, h⟩
    · rw [h]
      exact refersBack_of_decls fun _ _ => rfl
    · rw [h]
      exact refersBack_of_decls (by rintro ⟨⟩ h <;> trivial)
  | @setInit d i hinit =>
    rcases g.setInit_cases d i with h | ⟨_, -, h⟩
    · rw [h]
      exact refersBack_of_decls fun _ _ => rfl
    · rw [h]
      exact refersBack_of_decls (by rintro ⟨⟩ h <;> trivial)

/-! ## Graphs built from nothing -/

/-- The graph is built by additions to a graph without nodes.  The list has the graph before each
of them, the latest first. -/
inductive Built : List Graph → Graph → Prop
  | blank (symbols : SymbolTable) (intPrecision : UInt16) : Built [] (.blank symbols intPrecision)
  | add {gs : List Graph} {g g' : Graph} (h : Built gs g) (ha : g.Addition g') :
    Built (g :: gs) g'

/-- **Whatever was added in which order, a node that is no declaration came after all that it
refers to**: some graph on the way has its references, but not yet the node. -/
theorem Built.created_after {gs : List Graph} (h : Built gs g) {x : Node} (hd : x.1 ≠ .decl)
    (hx : g.contains x.2 = true) :
    ∃ g₀ ∈ gs, g₀.contains x.2 = false ∧ g₀.Has (g.references x) := by
  induction h with
  | blank symbols intPrecision =>
    obtain ⟨c, a⟩ := x
    refine absurd (contains_iff.1 hx) ?_
    cases c <;> exact Nat.not_lt_zero _
  | @add gs g g' hbuilt ha ih =>
    cases hold : g.contains x.2 with
    | true =>
      obtain ⟨g₀, hmem, hnot, hrefs⟩ := ih hold
      refine ⟨g₀, List.mem_cons_of_mem _ hmem, hnot, ?_⟩
      rwa [ha.extends.references hd hold]
    | false => exact ⟨g, List.mem_cons_self, hold, ha.refersBack x hd hold hx⟩

theorem Built.grows {gs : List Graph} (h : Built gs g) (hgrow : g.Grows g') :
    ∃ gs', Built gs' g' := by
  induction hgrow with
  | refl => exact ⟨gs, h⟩
  | tail _ ha ih =>
    obtain ⟨gs', h'⟩ := ih
    exact ⟨_, h'.add ha⟩

/-- The graph of an empty translation unit is built by five additions. -/
theorem built_initial (symbols : SymbolTable) (intPrecision : UInt16) :
    ∃ gs, Built gs (Graph.initial symbols intPrecision) :=
  ⟨_, .add (.add (.add (.add (.add (.blank symbols intPrecision) (.name (f := .global) trivial))
    (.decl (n := ⟨0⟩) (f := .ofNamespace) rfl trivial)) (.type (f := .void) trivial))
    (.type (f := .bool) trivial)) (.type (f := .float) trivial)⟩

end Graph
end SemanticCore
