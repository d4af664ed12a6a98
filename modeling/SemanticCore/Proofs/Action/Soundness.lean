import SemanticCore.Proofs.Action.Specialization
import SemanticCore.Proofs.Constraint.Checks
import SemanticCore.Proofs.Graph.Reference

/-!
# Soundness of the graph

What a client finds in a graph may be taken on trust, and nothing that the client does can spoil it.
Every handle in a node leads to a node (`Graph.Closed`), nodes are built from nodes that were there
before (`Graph.Ordered`), and where a node stands for a class, a concept, a template or a function,
it is one (`Graph.Sorted`).

Some branches of the program are there for graphs of which this is not so.  `Graph.Sound` has, with
what holds of the nodes, that these branches are never taken: no walk through the graph goes on for
ever or stops short (`Graph.Walkable`), normalizing finds the concept of a check, and a call finds
the template that its callee names and the function that the template is specialized to.

* `Graph.sound_of_reachable` — **every graph that a client can reach is sound.**
-/

set_option autoImplicit false
namespace SemanticCore

open SemanticCore.Graph

namespace Graph

variable {g : Graph}

/-! ## What holds of the nodes -/

/-- Every handle stored in a node names a node. -/
structure Closed (g : Graph) : Prop where
  references {x : Node} (hx : g.contains x.2 = true) : g.Has (g.references x)
  /-- No chain of references leaves the graph. -/
  reaches {x y : Node} (hx : g.contains x.2 = true)
    (h : Relation.ReflTransGen (fun a b => b ∈ g.references a) x y) : g.contains y.2 = true
  /-- The symbol of an identifier has a spelling. -/
  symbol {n : NameHandle} {s : Symbol} (hn : g.contains n = true) (h : g.name n = .simple s) :
    s.index < g.symbols.size
  /-- Every type has its flags. -/
  flags : g.flags.size = g.types.size

/-- Nodes are built from nodes that were there before. -/
structure Ordered (g : Graph) : Prop where
  name {m n : NameHandle} (hn : g.contains n = true) (hm : m ∈ (g.name n).parts) : m < n
  type {s t : TypeHandle} (ht : g.contains t = true) (hs : s ∈ (g.type t).components) : s < t
  cons {x c : ConsHandle} (hc : g.contains c = true) (hx : x ∈ (g.cons c).operands) : x < c
  expr {x e : ExprHandle} (he : g.contains e = true) (hx : x ∈ (g.expr e).form.operands g) : x < e
  /-- There is a series of additions that the graph results from. -/
  built : ∃ gs, Built gs g
  /-- In whatever series of additions, a node that is no declaration came after all that it refers
  to, also where this is of another category: some graph on the way has the references, but not yet
  the node. -/
  created {gs : List Graph} (h : Built gs g) {x : Node} (hd : x.1 ≠ .decl)
    (hx : g.contains x.2 = true) : ∃ g₀ ∈ gs, g₀.contains x.2 = false ∧ g₀.Has (g.references x)

/-- Nodes refer to declarations of the sort that they need. -/
structure Sorted (g : Graph) : Prop where
  ofClass {t : TypeHandle} {d : DeclHandle} (ht : g.contains t = true)
    (h : g.type t = .ofClass d) : g.isClassDecl d = true
  typename {t : TypeHandle} {d : DeclHandle} (ht : g.contains t = true)
    (h : g.type t = .typename d) : g.isTypeParamDecl d = true
  check {e : ExprHandle} {d : DeclHandle} {args : List Term} (he : g.contains e = true)
    (h : (g.expr e).form = .check d args) : g.isConceptDecl d = true
  concept {c : ConsHandle} {d : DeclHandle} {args : List Term} (hc : g.contains c = true)
    (h : g.cons c = .concept d args) : g.isConceptDecl d = true
  conceptId {n : NameHandle} {d : DeclHandle} {args : List Term} (hn : g.contains n = true)
    (h : g.name n = .concept d args) : g.isConceptDecl d = true
  templateRef {e : ExprHandle} {d : DeclHandle} (he : g.contains e = true)
    (h : (g.expr e).form = .templateRef d) : g.isTemplateDecl d = true
  templateId {n : NameHandle} {d : DeclHandle} {args : List Term} (hn : g.contains n = true)
    (h : g.name n = .template d args) : g.isTemplateDecl d = true
  /-- What a reference names has a type, and the reference is of the type of references to it. -/
  reference {e : ExprHandle} {d : DeclHandle} (he : g.contains e = true)
    (h : (g.expr e).form = .reference d) :
    ∃ t, g.declaredType? d = some t ∧ g.type (g.exprType e) = .reference t
  /-- A value made up from a declaration is of the type declared. -/
  synthetic {e : ExprHandle} {d : DeclHandle} (he : g.contains e = true)
    (h : (g.expr e).form = .synthetic d) : g.declaredType? d = some (g.exprType e)
  /-- The parameters of a function are object parameters, and their types make up its type. -/
  function {d : DeclHandle} {t : TypeHandle} {params : List DeclHandle} {defn : Option DefHandle}
    (hd : g.contains d = true) (h : (g.decl d).form = .function t params defn) :
    ∃ ts ret, g.type t = .function ts ret ∧ params.map g.objectParamType? = ts.map some

/-- Every walk through the graph ends, and none stops short: what is done with a node is the step
for it, after the same has been done with its parts. -/
structure Walkable (g : Graph) : Prop where
  components : WellFounded fun s t => s ∈ (g.type t).components
  operands : WellFounded fun x e => x ∈ (g.expr e).form.operands g
  consOperands : WellFounded fun x c => x ∈ (g.cons c).operands
  equivalent {a : ExprHandle} (ha : g.contains a = true) (b : ExprHandle) :
    g.equivalent a b = (a == b || g.agree g.equivalent (g.expr a) (g.expr b))
  matchType {p : TypeHandle} (hp : g.contains p = true) (a : TypeHandle) (s : Substitution) :
    g.matchType p a s = g.matchStep g.matchType p a s
  substitute {t : TypeHandle} (ht : g.contains t = true) (s : Substitution) :
    Build.substitute s t g = Build.substituteStep (Build.substitute s) s t g
  normalize {e : ExprHandle} (he : g.contains e = true) :
    Build.normalize e g = Build.normalizeStep Build.normalize e g
  disjunctiveForm {c : ConsHandle} (hc : g.contains c = true) :
    g.disjunctiveForm c = g.disjunctiveStep g.disjunctiveForm c
  conjunctiveForm {c : ConsHandle} (hc : g.contains c = true) :
    g.conjunctiveForm c = g.conjunctiveStep g.conjunctiveForm c
  conjuncts {c : ConsHandle} (hc : g.contains c = true) :
    g.conjuncts c = g.conjunctsStep g.conjuncts c

theorem WellFormed.closed (hg : g.WellFormed) : g.Closed where
  references hx := hg.has_references hx
  reaches hx h := hg.contains_of_reaches hx h
  symbol hn h := hg.fits_of_name hn h
  flags := hg.flags_size

/-- A graph that a client can reach is the result of a series of additions. -/
theorem Reachable.built (h : g.Reachable) : ∃ gs, Built gs g := by
  obtain ⟨symbols, intPrecision, hgrow⟩ := h.grows
  obtain ⟨gs, hbuilt⟩ := built_initial symbols intPrecision
  exact hbuilt.grows hgrow

theorem Reachable.ordered (h : g.Reachable) : g.Ordered where
  name {m n} hn hm := (h.wellFormed.placed n hn).2 m hm
  type ht hs := h.wellFormed.component_lt ht hs
  cons {x c} hc hx := (h.wellFormed.placed c hc).2 x hx
  expr he hx := h.wellFormed.operand_lt he hx
  built := h.built
  created hbuilt _ hd hx := hbuilt.created_after hd hx

theorem WellFormed.sorted (hg : g.WellFormed) : g.Sorted where
  ofClass ht h := hg.fits_of_type ht h
  typename ht h := hg.fits_of_type ht h
  check he h := (hg.fits_of_expr he h).2.1
  concept hc h := (hg.fits_of_cons hc h).1
  conceptId hn h := (hg.fits_of_name hn h).1
  templateRef he h := (hg.fits_of_expr he h).2.1
  templateId hn h := (hg.fits_of_name hn h).1
  reference he h := (hg.fits_of_expr he h).2
  synthetic he h := (hg.fits_of_expr he h).2
  function _ h := hg.function_type h

theorem WellFormed.walkable (hg : g.WellFormed) : g.Walkable where
  components := hg.wellFounded_components
  operands := hg.wellFounded_operands
  consOperands := hg.wellFounded_consOperands
  equivalent ha b := hg.equivalent_eq ha b
  matchType hp a s := hg.matchType_eq hp a s
  substitute ht s := hg.substitute_eq ht s
  normalize he := hg.normalize_eq he
  disjunctiveForm hc := hg.disjunctiveForm_eq hc
  conjunctiveForm hc := hg.conjunctiveForm_eq hc
  conjuncts hc := hg.conjuncts_eq hc

/-! ## Soundness -/

/-- What holds of the nodes of the graph, and that no branch of the program is taken that is there
for graphs of which it does not. -/
structure Sound (g : Graph) : Prop where
  closed : g.Closed
  ordered : g.Ordered
  sorted : g.Sorted
  walkable : g.Walkable
  /-- A check is normalized to its concept, applied to its arguments. -/
  normalizeCheck {e : ExprHandle} {d : DeclHandle} {args : List Term} (he : g.contains e = true)
    (h : (g.expr e).form = .check d args) : ∃ c g', Build.normalize e g = (c, g') ∧
      g'.contains c = true ∧ g'.cons c = .concept d args
  /-- Nor does a check become a predicate inside of what an expression is normalized to. -/
  keepsChecks {e : ExprHandle} (he : g.contains e = true) :
    KeepsChecks (Build.normalize e g).2 (Build.normalize e g).1
  /-- A context whose handles name nodes has only such handles also after a run of a client. -/
  context {ρ α : Type} {s : Session ρ} {x : Action ρ α} {ms ms' : List Marks} (hs : s.graph = g)
    (hc : s.context.Fits g) (hx : Action.Run .all ms s x ms') :
    (x s).2.context.Fits (x s).2.graph
  /-- A fault that a call ends with is neither that of a name of a template that names none, nor
  that of a specialization that is no function. -/
  call {ρ : Type} {s : Session ρ} (hs : s.graph = g) (hc : s.context.Fits g)
    (ho : s.context.oracle = .structural) {callee : ExprHandle} {args : List ExprHandle}
    (hcallee : g.contains callee = true) (ha : ∀ e ∈ args, g.contains e = true) {cause : Fault}
    (hfault : (Action.call callee args s).1 = .error (.error (.fault cause))) :
    cause.topic ≠ "template reference" ∧ cause.topic ≠ "specialization"

end Graph

/-- A fault that a call may end with is of neither of two topics. -/
theorem Fault.topic_ne {cause : Fault}
    (h : (Failure.error (.fault cause)).isImpossible = false) :
    cause.topic ≠ "template reference" ∧ cause.topic ≠ "specialization" := by
  cases cause with
  | notATemplate d | specializationNotAFunction d => cases h
  | _ => simp [topic]

namespace Graph

variable {g : Graph}

/-- **Every graph that a client can reach is sound.** -/
theorem sound_of_reachable (h : g.Reachable) : g.Sound where
  closed := h.wellFormed.closed
  ordered := h.ordered
  sorted := h.wellFormed.sorted
  walkable := h.wellFormed.walkable
  normalizeCheck {_ d args} he hf := by
    obtain ⟨-, hd, -, ha⟩ := h.wellFormed.fits_of_expr he hf
    rw [h.wellFormed.normalize_check he hf]
    exact ⟨_, _, rfl, (Build.Yields.constraint (f := .concept d args) ⟨hd, ha⟩).2⟩
  keepsChecks he := (h.wellFormed.normalize_keepsChecks he).2.2
  context hs hc hx := by
    subst hs
    exact ((hx.leads ⟨h.wellFormed, hc⟩).fits ⟨h.wellFormed, hc⟩).context
  call {_ _} hs hc ho {_ _} hcallee ha {_} hfault := by
    subst hs
    exact Fault.topic_ne
      ((Course.possible.call ⟨h.wellFormed, hc⟩ ho hcallee ha).fails _ hfault)

/-- The graph of `template<typename T> requires C<T> T f(T x)` is sound. -/
theorem sound_constrainedTemplate : Session.constrainedTemplate.Reachable ∧
    (Session.constrainedTemplate.expr ⟨0⟩).form = .check ⟨2⟩ [.type ⟨3⟩] ∧
    (Session.constrainedTemplate.expr ⟨1⟩).form = .templateRef ⟨5⟩ ∧
    (Session.constrainedTemplate.decl ⟨4⟩).form = .function ⟨4⟩ [⟨3⟩] none ∧
    Session.constrainedTemplate.Sound :=
  ⟨Session.constrainedTemplate_reachable, by decide +kernel, by decide +kernel, by decide +kernel,
    sound_of_reachable Session.constrainedTemplate_reachable⟩

end Graph
end SemanticCore
