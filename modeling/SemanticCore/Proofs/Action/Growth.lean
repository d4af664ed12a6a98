import SemanticCore.Proofs.Action.Extension
import SemanticCore.Proofs.Action.Run
import SemanticCore.Proofs.Graph.Operation

/-!
# Actions add to the graph

An action takes nodes from three places: the client names them, the context holds them, and its own
steps build them.  `Context.Fits` says of the second that they are in the graph, and that the oracle
works on the graph by operations only.  Then whatever an action does to the graph is a series of
additions, and in the end the frames are those that were open before, so the context still fits the
graph.

* `Session.Leads` — how a session goes on, which any number of actions compose to.
* `Course.growing` — the course of the actions that go on in that way.
-/

set_option autoImplicit false
namespace SemanticCore

open SemanticCore.Graph

/-! ## Oracles and contexts that fit a graph -/

/-- The oracle works by operations on every graph that the given one can grow into. -/
structure Oracle.Fits (g : Graph) (o : Oracle) : Prop where
  deduce : ∀ {g' tparams params args}, g.Grows g' → (∀ d ∈ tparams, g'.contains d = true) →
    (∀ d ∈ params, g'.contains d = true) → (∀ e ∈ args, g'.contains e = true) →
    g'.Reaches (o.deduce tparams params args g').2 ∧
      ∀ s, (o.deduce tparams params args g').1 = .ok s → s.Fits (o.deduce tparams params args g').2
  specialize : ∀ {g' template s}, g.Grows g' → g'.contains template = true →
    Substitution.Fits g' s → g'.Reaches (o.specialize template s g').2
  subsumes : ∀ {g' p q}, g.Grows g' → g'.contains p = true → g'.contains q = true →
    g'.Reaches (o.subsumes p q g').2
  admission : ∀ {g' c e}, g.Grows g' → g'.contains c = true → g'.contains e = true →
    g'.Reaches (o.admission? c e g').2

/-- The oracle that answers by structure works by operations. -/
theorem Oracle.fits_structural {g : Graph} (hg : g.WellFormed) : Oracle.structural.Fits g where
  deduce hgrow ht hp ha := ⟨.of_operation (.deduce ht hp ha),
    ((hgrow.wellFormed hg).yields_deduce _ _ ha).2⟩
  specialize _ hd hs := .of_operation (.specialize hd hs)
  subsumes _ hp hq := .of_operation (.subsumes hp hq)
  admission _ hc he := .of_operation (.admission hc he)

/-- The nodes that an action takes from the context are in the graph. -/
structure Context.Fits (g : Graph) (c : Context) : Prop where
  owners : ∀ scope ∈ c.scopes, g.contains scope.owner = true
  constraints : ∀ frame ∈ c.templates, ∀ e, frame.constraint = some e → g.contains e = true
  oracle : c.oracle.Fits g

/-- Deducing and specializing are operations one after the other. -/
theorem Oracle.Fits.resolve {g : Graph} {o : Oracle} (ho : o.Fits g) (hg : g.WellFormed)
    {template : DeclHandle} {tparams params : List DeclHandle} {args : List ExprHandle}
    (hd : g.contains template = true) (ht : ∀ d ∈ tparams, g.contains d = true)
    (hp : ∀ d ∈ params, g.contains d = true) (ha : ∀ e ∈ args, g.contains e = true) :
    Attempt.Yields g (o.resolve template tparams params args) fun _ _ => True := by
  obtain ⟨hreach, hres⟩ := ho.deduce (.refl _) ht hp ha
  have hdeduce : Attempt.Yields g (o.deduce tparams params args) fun s' g' => s'.Fits g' :=
    ⟨hreach.grows hg, hres⟩
  refine .bind hg hdeduce.adapt fun s' g' hgrow hg' hs' => .adapt ?_
  exact ⟨(ho.specialize hgrow (hgrow.contains hd) hs').grows hg', fun _ _ => trivial⟩

namespace Context.Fits

variable {g g' : Graph} {c : Context}

theorem initial (config : Config) {o : Oracle} (ho : o.Fits g) :
    (Context.initial config o).Fits g where
  owners _ h := by cases h
  constraints _ h := by cases h
  oracle := ho

theorem extend (h : g.Grows g') (hc : c.Fits g) : c.Fits g' where
  owners scope hs := h.contains (hc.owners scope hs)
  constraints frame hf e he := h.contains (hc.constraints frame hf e he)
  oracle := {
    deduce := fun hgrow => hc.oracle.deduce (h.trans hgrow)
    specialize := fun hgrow => hc.oracle.specialize (h.trans hgrow)
    subsumes := fun hgrow => hc.oracle.subsumes (h.trans hgrow)
    admission := fun hgrow => hc.oracle.admission (h.trans hgrow) }

theorem currentScope (hg : g.WellFormed) (hc : c.Fits g) : g.contains c.currentScope = true := by
  rw [Context.currentScope, innermost]
  cases hs : c.scopes with
  | nil => exact hg.globalNamespace
  | cons scope outer => exact hc.owners scope (hs ▸ List.mem_cons_self)

theorem currentConstraint? (hc : c.Fits g) {e : ExprHandle}
    (h : c.currentConstraint? = some e) : g.contains e = true := by
  obtain ⟨frame, hframe, he⟩ := Option.bind_eq_some_iff.1 h
  exact hc.constraints frame (List.mem_of_mem_head? hframe) e he

theorem pushScope (hc : c.Fits g) {owner : DeclHandle} (ho : g.contains owner = true) :
    (c.pushScope owner).Fits g :=
  { hc with owners := List.forall_mem_cons.2 ⟨ho, hc.owners⟩ }

theorem pushTemplate (hg : g.WellFormed) (hc : c.Fits g) (params : List DeclHandle)
    {constraint : Option ExprHandle} (he : ∀ e, constraint = some e → g.contains e = true) :
    (c.pushTemplate params constraint).Fits g :=
  { hc.pushScope (hc.currentScope hg) with
    constraints := List.forall_mem_cons.2 ⟨he, hc.constraints⟩ }

theorem pushRequirements (hg : g.WellFormed) (hc : c.Fits g) : c.pushRequirements.Fits g :=
  { hc.pushScope (hc.currentScope hg) with }

end Context.Fits

/-! ## Sessions -/

/-- The contexts have the same open scopes and templates, and the same oracle. -/
structure Context.SameFrames (c c' : Context) : Prop where
  scopes : c'.scopes = c.scopes
  templates : c'.templates = c.templates
  oracle : c'.oracle = c.oracle

namespace Context.SameFrames

variable {c c' c'' : Context}

theorem refl (c : Context) : c.SameFrames c := ⟨rfl, rfl, rfl⟩

theorem trans (h : c.SameFrames c') (h' : c'.SameFrames c'') : c.SameFrames c'' :=
  ⟨h'.scopes.trans h.scopes, h'.templates.trans h.templates, h'.oracle.trans h.oracle⟩

theorem fits {g : Graph} (h : c.SameFrames c') (hc : c.Fits g) : c'.Fits g where
  owners := h.scopes ▸ hc.owners
  constraints := h.templates ▸ hc.constraints
  oracle := h.oracle ▸ hc.oracle

theorem popScope {owner : DeclHandle} (h : (c.pushScope owner).SameFrames c') :
    c.SameFrames c'.popScope := by
  have hscopes : c'.scopes = ⟨owner, c.bindings.length⟩ :: c.scopes := h.scopes
  simp only [Context.popScope, hscopes]
  exact ⟨rfl, h.templates, h.oracle⟩

theorem popTemplate {params : List DeclHandle} {constraint : Option ExprHandle}
    (h : (c.pushTemplate params constraint).SameFrames c') : c.SameFrames c'.popTemplate := by
  have hscope : (c.pushScope c.currentScope).SameFrames
      { c' with templates := c'.templates.tail } :=
    ⟨h.scopes, congrArg List.tail h.templates, h.oracle⟩
  exact hscope.popScope

theorem popRequirements (h : c.pushRequirements.SameFrames c') :
    c.SameFrames c'.popRequirements := by
  have hscope : (c.pushScope c.currentScope).SameFrames
      { c' with requirements := c'.requirements.tail } :=
    ⟨h.scopes, h.templates, h.oracle⟩
  exact hscope.popScope

/-- Whatever marks are restored, if they can be, the frames are the same. -/
theorem restore {m : Marks} (h : c.restore m = .ok c') : c.SameFrames c' := by
  rw [eq_of_restore h]
  exact ⟨rfl, rfl, rfl⟩

theorem reportError {d : Diagnostic} (h : c.reportError d = .ok c') : c.SameFrames c' := by
  unfold Context.reportError at h
  split at h
  · cases h
    exact ⟨rfl, rfl, rfl⟩
  · cases h

theorem require (c : Context) (g : Graph) (e : ExprHandle) : c.SameFrames (c.require g e).2 := by
  unfold Context.require
  split
  · exact refl c
  · split
    · exact refl c
    · exact ⟨rfl, rfl, rfl⟩

end Context.SameFrames

variable {ρ α β : Type}

/-- The graph is well formed, and the context fits it. -/
structure Session.Fits (s : Session ρ) : Prop where
  graph : s.graph.WellFormed
  context : s.context.Fits s.graph

/-- The graph grew, and the same frames are open. -/
structure Session.Leads (s s' : Session ρ) : Prop where
  grows : s.graph.Grows s'.graph
  frames : s.context.SameFrames s'.context

namespace Session.Leads

variable {s s' s'' : Session ρ}

theorem refl (s : Session ρ) : s.Leads s := ⟨.refl _, .refl _⟩

theorem trans (h : s.Leads s') (h' : s'.Leads s'') : s.Leads s'' :=
  ⟨h.grows.trans h'.grows, h.frames.trans h'.frames⟩

theorem fits (h : s.Leads s') (hs : s.Fits) : s'.Fits :=
  ⟨h.grows.wellFormed hs.graph, h.frames.fits (hs.context.extend h.grows)⟩

end Session.Leads

/-- The return type of a function that is named is in the graph. -/
theorem Graph.WellFormed.contains_namedFunction? {g : Graph} (hg : g.WellFormed)
    {callee : ExprHandle} {expected : Nat} {ret : TypeHandle}
    (h : g.namedFunction? callee = some (expected, ret)) : g.contains ret = true := by
  rw [namedFunction?] at h
  split at h
  · split at h
    · next params ret hf =>
      cases h
      obtain ⟨t, ht, hform⟩ := Option.map_eq_some_iff.1 hf
      exact hg.contains_component (hg.contains_declaredType? ht)
        (by rw [hform]; exact List.mem_append_right _ List.mem_cons_self)
    · cases h
  · cases h

/-! ## Actions that add to the graph -/

/-- The graph grows, and the frames that were open are open. -/
def Course.growing : Course ρ where
  Holds := Session.Fits
  Leads := Session.Leads
  Fails _ := True
  Names g x := g.contains x = true
  Completes _ := True
  refl _ := .refl _
  trans _ h h' := h.trans h'
  holds hs h := h.fits hs
  names h hx := h.grows.contains hx

namespace Course.growing

variable {s : Session ρ} {Q : α → Graph → Prop}

theorem build {x : Build α} (hx : Build.Yields s.graph x Q) :
    Course.growing.Follows s (Action.build x) Q :=
  .build ⟨hx.1, .refl _⟩ hx.2

/-- An oracle that fits the graph works by operations. -/
theorem build_of_reaches {x : Build α} (hs : s.Fits) (h : s.graph.Reaches (x s.graph).2) :
    Course.growing.Follows s (Action.build x) fun _ _ => True :=
  build ⟨h.grows hs.graph, trivial⟩

theorem attempt (hs : s.Fits) {x : Attempt SemanticError α} (hx : Attempt.Yields s.graph x Q) :
    Course.growing.Follows s (Action.attempt x) Q :=
  .attempt hs ⟨hx.1, .refl _⟩ hx.2 fun _ _ => trivial

theorem construct (hs : s.Fits) {x : Attempt BuildError α} (hx : Attempt.Yields s.graph x Q) :
    Course.growing.Follows s (Action.construct x) Q :=
  attempt hs hx.adapt

theorem modifyContext {k : Context → Context} (h : s.context.SameFrames (k s.context)) :
    Course.growing.Follows s (Action.modifyContext k) fun _ _ => True :=
  .modifyContext ⟨.refl _, h⟩

theorem restore (hs : s.Fits) (m : Marks) :
    Course.growing.Follows s (Action.restore m) fun _ _ => True :=
  .changeContext hs (fun _ hc => ⟨.refl _, .restore hc⟩) fun _ _ => trivial

theorem reportError (hs : s.Fits) (d : Diagnostic) :
    Course.growing.Follows s (Action.reportError d) fun _ _ => True :=
  .changeContext hs (fun _ hc => ⟨.refl _, .reportError hc⟩) fun _ _ => trivial

theorem require (hs : s.Fits) (e : ExprHandle) :
    Course.growing.Follows s (Action.require e) fun _ _ => True := by
  refine .context_bind (.graph_bind ?_)
  refine .bind hs (modifyContext (.require _ s.graph e)) fun _ _ hs' _ _ _ => ?_
  exact .pure hs' trivial

theorem frames : (Course.growing : Course ρ).Frames where
  enter {s f} hs hf := by
    refine ⟨hs.graph, ?_⟩
    cases f with
    | scope owner => exact hs.context.pushScope hf
    | template params constraint => exact hs.context.pushTemplate hs.graph params hf
    | requirements => exact hs.context.pushRequirements hs.graph
  leave f _ h := by
    refine ⟨h.grows, ?_⟩
    cases f with
    | scope owner => exact h.frames.popScope
    | template params constraint => exact h.frames.popTemplate
    | requirements => exact h.frames.popRequirements

theorem trial {x : Action ρ α} (hs : s.Fits) (hx : Course.growing.Follows s x Q) :
    Course.growing.Follows s (Action.trial x) Q :=
  .trial hs hx fun _ hs' _ => restore hs' _

/-! ## Calls and names -/

theorem resolvedCall (hs : s.Fits) {callee : ExprHandle} {args : List ExprHandle}
    (hc : s.graph.contains callee = true) (ha : ∀ e ∈ args, s.graph.contains e = true) :
    Course.growing.Follows s (Action.attempt (Build.resolvedCall callee args))
      fun _ _ => True := by
  refine attempt hs (.get_bind ?_)
  split
  · exact .throw _
  · next expected ret hf =>
    split
    · refine (Attempt.Yields.lift (Build.Makes.call ?_ hc ha)).mono fun _ _ _ => trivial
      exact hs.graph.contains_namedFunction? hf
    · exact .throw _

theorem admission (hs : s.Fits) {constraints e : ExprHandle}
    (hc : s.context.currentConstraint? = some constraints) (he : s.graph.contains e = true) :
    s.Leads (s.built (s.context.oracle.admission? constraints e)) :=
  (build_of_reaches hs
    (hs.context.oracle.admission (.refl _) (hs.context.currentConstraint? hc) he)).leads

/-- The constraint of the template is asked for, wherever that is. -/
theorem subsumes {s₁ : Session ρ} (hs : s.Fits) {template pattern : DeclHandle}
    {tparams : List DeclHandle} {ambient required : ExprHandle}
    (htemplate : (s.graph.decl template).form = .template tparams pattern (some required))
    (hleads : s.Leads s₁) (hambient : s₁.context.currentConstraint? = some ambient) :
    s₁.Leads (s₁.built (s₁.context.oracle.subsumes ambient required)) := by
  obtain ⟨-, -, hconstraint⟩ := hs.graph.contains_template htemplate
  have hs₁ := hleads.fits hs
  exact (build_of_reaches hs₁ (hs₁.context.oracle.subsumes (.refl _)
    (hs₁.context.currentConstraint? hambient)
    (hleads.grows.contains (hconstraint _ rfl)))).leads

theorem resolveTemplate (hs : s.Fits) (callee : ExprHandle) {template pattern : DeclHandle}
    {tparams params : List DeclHandle} {constraint : Option ExprHandle} {t : TypeHandle}
    {defn : Option DefHandle} {args : List ExprHandle}
    (htemplate : (s.graph.decl template).form = .template tparams pattern constraint)
    (hpattern : (s.graph.decl pattern).form = .function t params defn)
    (ha : ∀ e ∈ args, s.graph.contains e = true) :
    Course.growing.Follows s
      (Action.resolveTemplate s.context.oracle callee template tparams params args)
      fun _ _ => True := by
  have hd := contains_of_form_ne (d := template) (by rw [htemplate]; rintro ⟨⟩)
  obtain ⟨htparams, -, -⟩ := hs.graph.contains_template htemplate
  have hresolve := hs.context.oracle.resolve hs.graph hd htparams
    (hs.graph.contains_functionParams hpattern) ha
  exact attempt hs hresolve.adapt

/-- What a template was specialized to has a return type, with which the call is recorded. -/
theorem recordCall {s₁ s₂ : Session ρ} (hs : s.Fits) {callee : ExprHandle} {args : List ExprHandle}
    (hc : s.graph.contains callee = true) (ha : ∀ e ∈ args, s.graph.contains e = true)
    {spec : DeclHandle} {ret : TypeHandle}
    (hret : (s₁.graph.declaredType? spec).bind s₁.graph.functionRet? = some ret)
    (hleads₁ : s.Leads s₁) (hleads₂ : s₁.Leads s₂) :
    Course.growing.Follows s₂ (Action.build (.call ret callee args)) fun _ _ => True := by
  obtain ⟨t, ht, hr⟩ := Option.bind_eq_some_iff.1 hret
  have hg₁ := (hleads₁.fits hs).graph
  have hr₁ := hg₁.contains_functionRet? (hg₁.contains_declaredType? ht) hr
  have hgrow := hleads₁.grows.trans hleads₂.grows
  exact build ((Build.Makes.call (hleads₂.grows.contains hr₁) (hgrow.contains hc)
    fun e he => hgrow.contains (ha e he)).mono fun _ _ _ => trivial)

theorem templateCall (hs : s.Fits) {callee : ExprHandle} (template : DeclHandle)
    {args : List ExprHandle} (hc : s.graph.contains callee = true)
    (ha : ∀ e ∈ args, s.graph.contains e = true) :
    Course.growing.Follows s (Action.templateCall callee template args) fun _ _ => True :=
  .templateCall hs (.of_error fun _ => trivial)
    (fun htemplate hpattern => resolveTemplate hs callee htemplate hpattern ha)
    (fun htemplate => subsumes hs htemplate)
    (fun _ _ _ => ⟨.refl _, rfl, rfl, rfl⟩)
    fun _ hret hleads₁ hleads₂ => recordCall hs hc ha hret hleads₁ hleads₂

theorem constrainedCall (hs : s.Fits) {callee recorded : ExprHandle} {args : List ExprHandle}
    (hc : s.graph.contains callee = true) (ha : ∀ e ∈ args, s.graph.contains e = true)
    (hr : s.graph.contains recorded = true) :
    Course.growing.Follows s (Action.constrainedCall callee args recorded) fun _ _ => True :=
  .constrainedCall hs trivial (fun _ => trivial) (fun _ hcurrent => admission hs hcurrent hr)
    (fun _ _ _ _ => trivial) fun _ hleads =>
      templateCall (hleads.fits hs) _ (hleads.grows.contains hc)
        fun e he => hleads.grows.contains (ha e he)

theorem call (hs : s.Fits) {callee : ExprHandle} {args : List ExprHandle}
    (hc : s.graph.contains callee = true) (ha : ∀ e ∈ args, s.graph.contains e = true) :
    Course.growing.Follows s (Action.call callee args) fun _ _ => True := by
  refine .call (fun _ => .dependentCall (R := fun e g => g.contains e = true) hs
    (build Build.Makes.autoType) (fun hleads ht => ?_)
    (fun hleads _ => require (hleads.fits hs) _) (fun _ => trivial) fun hleads hr => ?_)
    fun _ => resolvedCall hs hc ha
  · exact build (Build.Makes.call ht (hleads.grows.contains hc)
      fun e he => hleads.grows.contains (ha e he))
  · exact constrainedCall (hleads.fits hs) (hleads.grows.contains hc)
      (fun e he => hleads.grows.contains (ha e he)) hr

theorem nameExpr (hs : s.Fits) (n : NameHandle) :
    Course.growing.Follows s (Action.nameExpr n) fun _ _ => True := by
  refine .nameExpr hs (fun _ => trivial) (fun d => ?_) (fun d => ?_) n
  · exact (construct hs (Attempt.Makes.referenceTo hs.graph d)).mono fun _ _ _ => trivial
  · exact (construct hs (Attempt.Makes.templateReference hs.graph d)).mono fun _ _ _ => trivial

/-! ## Declaring -/

/-- Initializing a variable adds what it is initialized from. -/
theorem initVariable (hs : s.Fits) (d : DeclHandle) {t : TypeHandle} {written : Option InitSyntax}
    (ht : s.graph.contains t = true)
    (hw : ∀ i, written = some i → ∀ e ∈ i.exprs, s.graph.contains e = true) :
    Attempt.Yields s.graph (Build.initVariable d t written) fun _ _ => True := by
  cases written with
  | none =>
    exact .bind hs.graph (Attempt.Makes.initDefault ht) fun i g _ _ hi =>
      (Attempt.Yields.setInitializer d hi).adapt
  | some i =>
    refine .bind hs.graph (Attempt.Makes.initFrom hs.graph ht (hw i rfl)) fun i g _ _ hi => ?_
    exact (Attempt.Yields.setInitializer d hi).adapt

theorem declares : (Course.growing : Course ρ).Declares where
  error _ := trivial
  stale := trivial
  bindName _ _ _ := ⟨.refl _, rfl, rfl, rfl⟩
  restore hs hleads := restore (hleads.fits hs) _
  currentScope hs := hs.context.currentScope hs.graph
  setContext _ _ ho := build (.setContext _ ho)
  setContexts hs _ ho := build (.setContexts _ hs.graph ho)
  variableDecl _ hn ht :=
    (build (Build.Makes.variableDecl hn ht (by rintro _ ⟨⟩))).mono fun _ _ hd => ⟨hd, trivial⟩
  initVariable hs _ ht hw := build ((initVariable hs _ ht hw).run.mono fun _ _ _ => trivial)
  functionDecl hs hn hr :=
    (construct hs (Attempt.Makes.functionDecl hs.graph hn hr)).mono fun _ _ hd => ⟨hd, trivial⟩
  classDecl _ hn := (build (Build.Makes.classDecl hn)).mono fun _ _ hd => ⟨hd, trivial⟩
  classDefinition _ hm := build (.defn (f := .ofClass _) hm)
  functionDefinition _ hstmt := build (.defn (f := .function _) hstmt)
  define hs _ hx := construct hs (.define _ hx)
  templateDecl hs hp hd hc :=
    (build (Build.Makes.templateDecl hs.graph hp hd hc)).mono fun _ _ hd => ⟨hd, trivial⟩
  conceptOfExpr hs hn hp he :=
    (build (Build.Makes.conceptOfExpr hs.graph hn hp he)).mono fun _ _ hd => ⟨hd, trivial⟩
  requiresExpr hs ht hp hr :=
    (build (Build.Makes.requiresExpr hs.graph ht hp hr)).mono fun _ _ _ => trivial

end Course.growing

end SemanticCore
