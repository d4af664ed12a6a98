import SemanticCore.Proofs.Action.Growth
import SemanticCore.Proofs.Expr.Resolution

/-!
# Actions add well-typed expressions

`Course.typing free` is the course of the actions that add to the graph, and only expressions that
are well typed.  Most steps build declarations and change the context, and add no expression at all.

The calls are what the oracle has a part in.  With the oracle that answers by structure, a call of a
function template has the return type of the specialization to the arguments that were deduced for
it (`Oracle.yields_resolve`).
-/

set_option autoImplicit false
namespace SemanticCore

open SemanticCore.Graph

variable {ρ α β : Type} {free : Prop}

/-! ## What actions type -/

/-- The oracle answers by structure, the graph grows by well-typed expressions only, and the frames
that were open are open. -/
def Course.typing (free : Prop) : Course ρ where
  Holds s := s.Fits ∧ s.context.oracle = .structural
  Leads s s' := s.Leads s' ∧ s.graph.GrowsTyped free s'.graph
  Fails _ := True
  Names g x := g.contains x = true
  Completes _ := True
  refl _ := ⟨.refl _, .refl _⟩
  trans hs h h' := ⟨h.1.trans h'.1, h.2.trans hs.1.graph h'.2⟩
  holds hs h := ⟨h.1.fits hs.1, h.1.frames.oracle.trans hs.2⟩
  names h hx := h.1.grows.contains hx

namespace Course.typing

variable {s : Session ρ} {Q : α → Graph → Prop}

theorem build {x : Build α} (hx : Build.Types free s.graph x Q) :
    (Course.typing free).Follows s (Action.build x) Q :=
  .build ⟨⟨hx.1.grows, .refl _⟩, hx.1⟩ hx.2

theorem attempt (hs : s.Fits ∧ s.context.oracle = .structural) {x : Attempt SemanticError α}
    (hx : Attempt.Types free s.graph x Q) : (Course.typing free).Follows s (Action.attempt x) Q :=
  .attempt hs ⟨⟨hx.1.grows, .refl _⟩, hx.1⟩ hx.2 fun _ _ => trivial

theorem construct (hs : s.Fits ∧ s.context.oracle = .structural) {x : Attempt BuildError α}
    (hx : Attempt.Types free s.graph x Q) : (Course.typing free).Follows s (Action.construct x) Q :=
  attempt hs hx.adapt

/-- An action that adds no expression only has to add to the graph. -/
theorem of_exprs {x : Action ρ α} (hx : Course.growing.Follows s x Q)
    (hexprs : (x s).2.graph.exprs = s.graph.exprs) : (Course.typing free).Follows s x Q :=
  ⟨⟨hx.leads, .of_exprs hx.leads.grows hexprs⟩, hx.result, hx.fails⟩

theorem of_build {x : Build α} (hx : Course.growing.Follows s (Action.build x) Q) (hq : x.Quiet) :
    (Course.typing free).Follows s (Action.build x) Q :=
  of_exprs hx (hq s.graph)

theorem of_attempt {x : Attempt SemanticError α}
    (hx : Course.growing.Follows s (Action.attempt x) Q) (hq : x.Quiet) :
    (Course.typing free).Follows s (Action.attempt x) Q :=
  of_exprs hx (by rw [Action.attempt_session]; exact hq s.graph)

theorem of_construct {x : Attempt BuildError α}
    (hx : Course.growing.Follows s (Action.construct x) Q) (hq : x.Quiet) :
    (Course.typing free).Follows s (Action.construct x) Q :=
  of_attempt hx hq.adapt

theorem restore (hs : s.Fits ∧ s.context.oracle = .structural) (m : Marks) :
    (Course.typing free).Follows s (Action.restore m) fun _ _ => True :=
  .changeContext hs (fun _ hc => ⟨⟨.refl _, .restore hc⟩, .refl _⟩) fun _ _ => trivial

theorem require (hs : s.Fits) (e : ExprHandle) :
    (Course.typing free).Follows s (Action.require e) fun _ _ => True :=
  of_exprs (Course.growing.require hs e) rfl

theorem frames : (Course.typing free : Course ρ).Frames where
  enter {s f} hs hf := by
    refine ⟨Course.growing.frames.enter hs.1 (by cases f <;> exact hf), ?_⟩
    cases f <;> exact hs.2
  leave f hs h := ⟨Course.growing.frames.leave f hs.1 h.1, h.2⟩

end Course.typing

/-! ## Calls -/

/-- What is specialized is the function that the template parameterizes. -/
theorem Graph.IsSpecialization.pattern {g : Graph} {template pattern spec : DeclHandle}
    {tparams params : List DeclHandle} {constraint : Option ExprHandle} {t : TypeHandle}
    {defn : Option DefHandle} {σ : Substitution} (hspec : g.IsSpecialization template σ spec)
    (ht : (g.decl template).form = .template tparams pattern constraint)
    (hp : (g.decl pattern).form = .function t params defn) :
    ∃ ret, g.functionPattern? template = some (params, ret) := by
  obtain ⟨ps, ret, _, _, _, _, h, -⟩ := hspec
  refine ⟨ret, h.trans ?_⟩
  simp only [functionPattern?, ht, hp] at h
  obtain ⟨r, -, heq⟩ := Option.map_eq_some_iff.1 h
  cases heq
  rfl

/-- By structure a template is resolved to its specialization to the arguments that are deduced. -/
theorem Oracle.yields_resolve {g : Graph} (hg : g.WellFormed) (template : DeclHandle)
    {tparams params : List DeclHandle} {args : List ExprHandle}
    (ht : ∀ d ∈ tparams, g.contains d = true) (hp : ∀ d ∈ params, g.contains d = true)
    (ha : ∀ e ∈ args, g.contains e = true) :
    Attempt.Yields g (Oracle.structural.resolve template tparams params args) fun spec g' =>
      ∃ s, Build.deduce tparams params args g' = (.ok s, g') ∧
        g'.IsSpecialization template s spec := by
  have hdeduce : Attempt.Yields g (Build.deduce tparams params args) fun s g' =>
      s.Fits g' ∧ Build.deduce tparams params args g' = (.ok s, g') := by
    obtain ⟨hgrow, hfits⟩ := hg.yields_deduce tparams params ha
    exact ⟨hgrow, fun s hs => ⟨hfits s hs,
      hg.deduce_again ht hp ha (Prod.ext hs rfl) (.refl _)⟩⟩
  refine .bind hg hdeduce.adapt fun s g₁ hgrow₁ hg₁ hdeduced => .adapt ?_
  obtain ⟨hs, hagain⟩ := hdeduced
  obtain ⟨hgrow₂, hspec⟩ := Attempt.Yields.specialize hg₁ template hs
  refine ⟨hgrow₂, fun spec hok => ⟨s, ?_, hspec spec hok⟩⟩
  exact hg₁.deduce_again (fun d hd => hgrow₁.contains (ht d hd))
    (fun d hd => hgrow₁.contains (hp d hd)) (fun e he => hgrow₁.contains (ha e he)) hagain
    hgrow₂.extends

namespace Course.typing

variable {s : Session ρ}

/-- A call that was typed in a graph is added to an extension of it. -/
theorem buildCall {g : Graph} (hg : g.WellFormed) (hgrow : g.Grows s.graph) {t : TypeHandle}
    {callee : ExprHandle} {args : List ExprHandle} (ht : g.contains t = true)
    (hc : g.contains callee = true) (ha : ∀ e ∈ args, g.contains e = true)
    (htyping : Typing free g (.call callee args) t) :
    (Course.typing free).Follows s (Action.build (Build.call t callee args))
      fun e g' => g'.contains e = true := by
  have hfits : Expr.Fits g ⟨.call callee args, t⟩ := ⟨ht, hc, ha⟩
  exact build (Build.TypesExpr.of_typing (hgrow.wellFormed hg) (hfits.extend hgrow.extends)
    (htyping.extend hg hgrow.extends hfits))

theorem subsumes {s₁ : Session ρ} (hs : s.Fits ∧ s.context.oracle = .structural)
    {template pattern : DeclHandle} {tparams : List DeclHandle} {ambient required : ExprHandle}
    (htemplate : (s.graph.decl template).form = .template tparams pattern (some required))
    (hleads : (Course.typing free).Leads s s₁)
    (hambient : s₁.context.currentConstraint? = some ambient) :
    (Course.typing free).Leads s₁ (s₁.built (s₁.context.oracle.subsumes ambient required)) := by
  have hgrow := Course.growing.subsumes hs.1 htemplate hleads.1 hambient
  refine ⟨hgrow, .of_exprs hgrow.grows ?_⟩
  rw [((Course.typing free).holds hs hleads).2]
  exact Build.Quiet.subsumes ambient required s₁.graph

theorem admission (hs : s.Fits ∧ s.context.oracle = .structural) {constraints e : ExprHandle}
    (hc : s.context.currentConstraint? = some constraints) (he : s.graph.contains e = true) :
    (Course.typing free).Leads s (s.built (s.context.oracle.admission? constraints e)) := by
  have hgrow := Course.growing.admission hs.1 hc he
  refine ⟨hgrow, .of_exprs hgrow.grows ?_⟩
  rw [hs.2]
  exact Build.Quiet.admission? constraints e s.graph

theorem resolveTemplate (hs : s.Fits ∧ s.context.oracle = .structural) (callee : ExprHandle)
    {template pattern : DeclHandle} {tparams params : List DeclHandle}
    {constraint : Option ExprHandle} {t : TypeHandle} {defn : Option DefHandle}
    {args : List ExprHandle}
    (htemplate : (s.graph.decl template).form = .template tparams pattern constraint)
    (hpattern : (s.graph.decl pattern).form = .function t params defn)
    (ha : ∀ e ∈ args, s.graph.contains e = true) :
    (Course.typing free).Follows s
      (Action.resolveTemplate s.context.oracle callee template tparams params args) fun spec g =>
        ∃ σ, Build.deduce tparams params args g = (.ok σ, g) ∧
          g.IsSpecialization template σ spec := by
  have hresolve := Oracle.yields_resolve hs.1.graph template
    (hs.1.graph.contains_template htemplate).1 (hs.1.graph.contains_functionParams hpattern) ha
  have hquiet : Attempt.Quiet (Oracle.structural.resolve template tparams params args) :=
    .bind (.adapt (.deduce tparams params args)) fun σ => .adapt (.specialize template σ)
  rw [hs.2]
  exact of_attempt (Course.growing.attempt hs.1 hresolve.adapt) hquiet.adapt

theorem templateCall (hs : s.Fits ∧ s.context.oracle = .structural) {callee : ExprHandle}
    {template : DeclHandle} {args : List ExprHandle} (hc : s.graph.contains callee = true)
    (hform : (s.graph.expr callee).form = .templateRef template)
    (ha : ∀ e ∈ args, s.graph.contains e = true) :
    (Course.typing free).Follows s (Action.templateCall callee template args)
      fun _ _ => True := by
  refine .templateCall hs (.of_error fun _ => trivial) (fun htemplate hpattern =>
    (resolveTemplate hs callee htemplate hpattern ha).mono fun _ _ _ => trivial)
    (fun htemplate => subsumes hs htemplate) (fun _ _ _ => ⟨⟨.refl _, rfl, rfl, rfl⟩, .refl _⟩)
    fun hspec hret hleads₁ hleads₂ => ?_
  have hg₁ := (hleads₁.1.fits hs.1).graph
  have hext := hleads₁.1.grows.extends
  obtain ⟨fn, hfn, hr⟩ := Option.bind_eq_some_iff.1 hret
  obtain ⟨htemplate, hpattern, hrun⟩ := hspec
  have hfollows : (Course.typing free).Follows s _ _ :=
    resolveTemplate hs callee htemplate hpattern ha
  have hresolved := hfollows.result _ (congrArg Prod.fst hrun)
  rw [hrun] at hresolved
  obtain ⟨σ, hdeduce, hspec⟩ := hresolved
  obtain ⟨defn', hpattern'⟩ := hext.function hpattern
  have htemplate' := hext.template htemplate
  obtain ⟨r, hparams'⟩ := hspec.pattern htemplate' hpattern'
  exact (buildCall hg₁ hleads₂.1.grows
    (hg₁.contains_functionRet? (hg₁.contains_declaredType? hfn) hr) (hext.contains hc)
    (fun e he => hext.contains (ha e he))
    (.templateCall (by rwa [hext.expr hc]) htemplate' hparams' hdeduce hspec hret)).mono
    fun _ _ _ => trivial

theorem resolvedCall {g : Graph} (hg : g.WellFormed) {callee : ExprHandle}
    {args : List ExprHandle} (hc : g.contains callee = true)
    (ha : ∀ e ∈ args, g.contains e = true)
    (hdep : (g.isTypeDependent callee || args.any g.isTypeDependent) = false) :
    Attempt.Types free g (Build.resolvedCall callee args) fun _ _ => True := by
  refine .get_bind ?_
  split
  · exact .throw _
  · next expected ret hnamed =>
    split
    · next hlen =>
      have hret := hg.contains_namedFunction? hnamed
      rw [namedFunction?] at hnamed
      split at hnamed
      · next d hform =>
        split at hnamed
        · next params ret hfn =>
          cases hnamed
          obtain ⟨fn, hd, hfn⟩ := Option.map_eq_some_iff.1 hfn
          exact (Attempt.Types.lift (.expr (f := .call callee args) hg ⟨hret, hc, ha⟩
            (.call hform hd hfn hlen hdep))).mono fun _ _ _ => trivial
        · cases hnamed
      · cases hnamed
    · exact .throw _

/-- A dependent call is recorded with a placeholder for its type. -/
theorem recordCall (hs : s.Fits) {s₁ : Session ρ} (hleads : s.Leads s₁) {callee : ExprHandle}
    {args : List ExprHandle} {t : TypeHandle} (hc : s.graph.contains callee = true)
    (ha : ∀ e ∈ args, s.graph.contains e = true)
    (hdep : (s.graph.isTypeDependent callee || args.any s.graph.isTypeDependent) = true)
    (ht : s₁.graph.contains t = true ∧ ∃ n, s₁.graph.type t = .auto n) :
    (Course.typing free).Follows s₁ (Action.build (Build.call t callee args))
      fun e g => g.contains e = true := by
  obtain ⟨ht, n, hn⟩ := ht
  have hext := hleads.grows.extends
  rw [← hs.graph.isTypeDependent_extend hext hc, ← hs.graph.any_isTypeDependent_extend hext ha]
    at hdep
  exact buildCall (hleads.fits hs).graph (.refl _) ht (hext.contains hc)
    (fun e he => hext.contains (ha e he)) (.deferredCall hdep hn)

/-- **Resolving a call adds well-typed expressions only.** -/
theorem call (hs : s.Fits ∧ s.context.oracle = .structural) {callee : ExprHandle}
    {args : List ExprHandle} (hc : s.graph.contains callee = true)
    (ha : ∀ e ∈ args, s.graph.contains e = true) :
    (Course.typing free).Follows s (Action.call callee args) fun _ _ => True := by
  refine .call (fun hdep => ?_) fun hdep => attempt hs (resolvedCall hs.1.graph hc ha hdep)
  refine .dependentCall hs
    (of_build (Course.growing.build Build.Yields.autoType) .autoType)
    (fun hleads ht => recordCall hs.1 hleads.1 hc ha hdep ht)
    (fun hleads _ => require (hleads.1.fits hs.1) _) (fun _ => trivial) fun hleads hr => ?_
  have hs₂ := (Course.typing free).holds hs hleads
  refine .constrainedCall hs₂ trivial (fun _ => trivial)
    (fun _ hcurrent => admission hs₂ hcurrent hr) (fun _ _ _ _ => trivial) fun hform hleads' => ?_
  have hgrow := hleads.1.grows.trans hleads'.1.grows
  exact templateCall ((Course.typing free).holds hs₂ hleads') (hgrow.contains hc) hform
    fun e he => hgrow.contains (ha e he)

/-! ## Names and declarations -/

theorem nameExpr (hs : s.Fits ∧ s.context.oracle = .structural) (n : NameHandle) :
    (Course.typing free).Follows s (Action.nameExpr n) fun _ _ => True := by
  refine .nameExpr hs (fun _ => trivial) (fun d => ?_) (fun d => ?_) n
  · exact (construct hs (.referenceTo hs.1.graph d)).mono fun _ _ _ => trivial
  · exact (construct hs (.templateReference hs.1.graph d)).mono fun _ _ _ => trivial

/-- Most declaring steps add no expression. -/
theorem declares : (Course.typing free : Course ρ).Declares where
  error _ := trivial
  stale := trivial
  bindName _ _ _ := ⟨⟨.refl _, rfl, rfl, rfl⟩, .refl _⟩
  restore hs hleads := restore ((Course.typing free).holds hs hleads) _
  currentScope hs := Course.growing.declares.currentScope hs.1
  setContext hs hd ho := of_build (Course.growing.declares.setContext hs.1 hd ho) (.setContext _ _)
  setContexts hs hd ho :=
    of_build (Course.growing.declares.setContexts hs.1 hd ho) (.setContexts _ _)
  variableDecl hs hn ht := of_build (Course.growing.declares.variableDecl hs.1 hn ht) (.decl _ _)
  initVariable hs _ ht hw :=
    (build (Attempt.Types.initVariable hs.1.graph _ ht hw)).mono fun _ _ _ => trivial
  functionDecl hs hn hr :=
    of_construct (Course.growing.declares.functionDecl hs.1 hn hr) (.functionDecl _ _ _)
  classDecl hs hn := of_build (Course.growing.declares.classDecl hs.1 hn) (.decl _ _)
  classDefinition hs hm := of_build (Course.growing.declares.classDefinition hs.1 hm) (.defn _)
  functionDefinition hs hx :=
    of_build (Course.growing.declares.functionDefinition hs.1 hx) (.defn _)
  define hs hd hx := of_construct (Course.growing.declares.define hs.1 hd hx) (.define _ _)
  templateDecl hs hp hd hc :=
    of_build (Course.growing.declares.templateDecl hs.1 hp hd hc) (.templateDecl _ _ _)
  conceptOfExpr hs hn hp he :=
    of_build (Course.growing.declares.conceptOfExpr hs.1 hn hp he) (.conceptOfExpr _ _ _)
  requiresExpr hs ht hp hr :=
    (build (Build.Types.requiresExpr hs.1.graph ht hp hr)).mono fun _ _ _ => trivial

end Course.typing
end SemanticCore
