import SemanticCore.Proofs.Action.Course

/-!
# The way through an action

Whatever course is chosen, the way through an action is the same.  Here it is walked once, from step
to step: through the resolution of calls and names, and through declaring and defining.

A step of a call that a course has something to say about is a hypothesis, together with what is
known where the step is taken.  The steps of declaring are the same in all declaring actions, so
they are put together: `Course.Declares` says that they stay on the course as long as they refer to
handles that actions may refer to, and complete declarations that actions may complete.  What a step
has just built is both.

* `Course.Follows.call` — calls.
* `Course.Follows.nameExpr` — names.
* `Course.Follows.declare` and what comes after it — declarations, and constructs with a body.
-/

set_option autoImplicit false
namespace SemanticCore
namespace Course.Follows

variable {ρ α : Type} {C : Course ρ} {s : Session ρ}

/-! ## Calls -/

theorem reportUncovered (hs : C.Holds s) {template : DeclHandle}
    (herror : C.Fails (.error (.type (.uncoveredCall template))))
    (hwarn : ∀ d, C.Leads s (s.enter (·.warn d))) :
    C.Follows s (Action.reportUncovered template) fun _ _ => True := by
  refine context_bind ?_
  split
  · exact throw_bind hs herror
  · exact graph_bind (modifyContext (hwarn _))

theorem isCovered (hs : C.Holds s) {required : ExprHandle}
    (h : ∀ ambient, s.context.currentConstraint? = some ambient →
      C.Leads s (s.built (s.context.oracle.subsumes ambient required))) :
    C.Follows s (Action.isCovered required) fun _ _ => True := by
  refine context_bind ?_
  split
  · next ambient hambient => exact build (h ambient hambient) trivial
  · exact pure hs trivial

theorem admitted? (hs : C.Holds s) {e : ExprHandle} {Q : ExprHandle → Graph → Prop}
    (h : ∀ constraints, s.context.currentConstraint? = some constraints →
      C.Leads s (s.built (s.context.oracle.admission? constraints e)))
    (htaken : ∀ constraints x, s.context.currentConstraint? = some constraints →
      (s.context.oracle.admission? constraints e s.graph).1 = some x →
        Q x (s.context.oracle.admission? constraints e s.graph).2) :
    C.Follows s (Action.admitted? e) fun found g => ∀ x, found = some x → Q x g := by
  refine context_bind ?_
  split
  · next constraints hc => exact build (h constraints hc) fun x => htaken constraints x hc
  · exact pure hs nofun

end Course.Follows

namespace Action

variable {ρ : Type}

/-- The step of a template's call that finds the specialization. -/
def resolveTemplate (o : Oracle) (callee : ExprHandle) (template : DeclHandle)
    (tparams params : List DeclHandle) (args : List ExprHandle) : Action ρ DeclHandle :=
  attempt ((o.resolve template tparams params args).adapt fun cause =>
    .type (.noMatchingCall callee cause))

/-- From `s` on, the template is specialized for a call, which leads to `s₁` and to `spec`. -/
inductive Specializes (callee : ExprHandle) (template : DeclHandle) (args : List ExprHandle)
    (s s₁ : Session ρ) (spec : DeclHandle) : Prop
  | intro {tparams params : List DeclHandle} {pattern : DeclHandle}
    {constraint : Option ExprHandle} {t : TypeHandle} {defn : Option DefHandle}
    (htemplate : (s.graph.decl template).form = .template tparams pattern constraint)
    (hpattern : (s.graph.decl pattern).form = .function t params defn)
    (hrun : resolveTemplate s.context.oracle callee template tparams params args s =
      (.ok spec, s₁))

end Action

/-- Where the call of a template fails, the failure is one of the course. -/
structure Course.FailsTemplate {ρ : Type} (C : Course ρ) (s : Session ρ) (callee : ExprHandle)
    (template : DeclHandle) (args : List ExprHandle) : Prop where
  notATemplate : (∀ tparams pattern constraint,
    (s.graph.decl template).form ≠ .template tparams pattern constraint) →
      C.Fails (.error (.fault (.notATemplate template)))
  patternNotAFunction (pattern : DeclHandle) :
    C.Fails (.error (.fault (.patternNotAFunction pattern)))
  notAFunction {s₁ : Session ρ} {spec : DeclHandle} :
    Action.Specializes callee template args s s₁ spec →
      (s₁.graph.declaredType? spec).bind s₁.graph.functionRet? = none →
        C.Fails (.error (.fault (.specializationNotAFunction spec)))
  uncoveredCall : C.Fails (.error (.type (.uncoveredCall template)))

/-- Semantic errors are failures of the course. -/
theorem Course.FailsTemplate.of_error {ρ : Type} {C : Course ρ} {s : Session ρ}
    {callee : ExprHandle} {template : DeclHandle} {args : List ExprHandle}
    (h : ∀ cause, C.Fails (.error cause)) : C.FailsTemplate s callee template args where
  notATemplate _ := h _
  patternNotAFunction _ := h _
  notAFunction _ _ := h _
  uncoveredCall := h _

namespace Course.Follows

variable {ρ α : Type} {C : Course ρ} {s : Session ρ} {Q : ExprHandle → Graph → Prop}

/-- The template is resolved, whether the call is covered is asked if it has a constraint, and the
call is recorded. -/
theorem templateCall (hs : C.Holds s) {callee : ExprHandle} {template : DeclHandle}
    {args : List ExprHandle} (hfails : C.FailsTemplate s callee template args)
    (hresolve : ∀ {tparams pattern constraint t params defn},
      (s.graph.decl template).form = .template tparams pattern constraint →
      (s.graph.decl pattern).form = .function t params defn →
        C.Follows s (Action.resolveTemplate s.context.oracle callee template tparams params args)
          fun _ _ => True)
    (hsubsumes : ∀ {tparams pattern required s₁ ambient},
      (s.graph.decl template).form = .template tparams pattern (some required) → C.Leads s s₁ →
      s₁.context.currentConstraint? = some ambient →
        C.Leads s₁ (s₁.built (s₁.context.oracle.subsumes ambient required)))
    (hwarn : ∀ s₁ d, C.Holds s₁ → C.Leads s₁ (s₁.enter (·.warn d)))
    (hcall : ∀ {s₁ s₂ spec ret}, Action.Specializes callee template args s s₁ spec →
      (s₁.graph.declaredType? spec).bind s₁.graph.functionRet? = some ret → C.Leads s s₁ →
      C.Leads s₁ s₂ → C.Follows s₂ (Action.build (.call ret callee args)) Q) :
    C.Follows s (Action.templateCall callee template args) Q := by
  refine graph_bind ?_
  split
  · next tparams pattern constraint htemplate =>
    refine graph_bind ?_
    split
    · next t params defn hpattern =>
      refine context_bind (bind hs (hresolve htemplate hpattern)
        fun spec s₁ hs₁ hleads₁ _ hrun => graph_bind ?_)
      have hspec : Action.Specializes callee template args s s₁ spec :=
        .intro htemplate hpattern hrun
      split
      · next ret hret =>
        split
        · next required =>
          refine bind hs₁ (isCovered hs₁ fun _ => hsubsumes htemplate hleads₁)
            fun covered s₂ hs₂ hleads₂ _ _ => ?_
          split
          · refine bind hs₂ (reportUncovered hs₂ hfails.uncoveredCall (hwarn s₂ · hs₂))
              fun _ s₃ _ hleads₃ _ _ => ?_
            exact hcall hspec hret hleads₁ (C.trans hs₁ hleads₂ hleads₃)
          · exact hcall hspec hret hleads₁ hleads₂
        · exact hcall hspec hret hleads₁ (C.refl hs₁)
      · next hnone =>
        exact throw hs₁ (hfails.notAFunction hspec (Option.eq_none_iff_forall_ne_some.2 hnone))
    · exact throw hs (hfails.patternNotAFunction pattern)
  · next hnot => exact throw hs (hfails.notATemplate hnot)

theorem constrainedCall (hs : C.Holds s) {callee recorded : ExprHandle} {args : List ExprHandle}
    (hfunction : C.Fails (.error (.unsupported .dependentFunctionCall)))
    (hcallee : ∀ form, C.Fails (.error (.fault (.dependentCallee form))))
    (hadmission : ∀ constraints, s.context.currentConstraint? = some constraints →
      C.Leads s (s.built (s.context.oracle.admission? constraints recorded)))
    (htaken : ∀ constraints e, s.context.currentConstraint? = some constraints →
      (s.context.oracle.admission? constraints recorded s.graph).1 = some e →
        Q e (s.context.oracle.admission? constraints recorded s.graph).2)
    (htemplate : ∀ {template s₁}, (s₁.graph.expr callee).form = .templateRef template →
      C.Leads s s₁ → C.Follows s₁ (Action.templateCall callee template args) Q) :
    C.Follows s (Action.constrainedCall callee args recorded) Q := by
  refine bind hs (admitted? hs hadmission htaken) fun found s₁ hs₁ hleads hfound _ => ?_
  split
  · exact pure hs₁ (hfound _ rfl)
  · refine graph_bind ?_
    split
    · next template hform => exact htemplate hform hleads
    · split
      · exact throw hs₁ hfunction
      · exact throw hs₁ (hcallee _)
    · exact throw hs₁ (hcallee _)

/-- A dependent call is recorded with a placeholder for its type, whatever becomes of it. -/
theorem dependentCall (hs : C.Holds s) {callee : ExprHandle} {args : List ExprHandle}
    {T : TypeHandle → Graph → Prop} {R : ExprHandle → Graph → Prop}
    (htype : C.Follows s (Action.build .autoType) T)
    (hrecord : ∀ {t s₁}, C.Leads s s₁ → T t s₁.graph →
      C.Follows s₁ (Action.build (.call t callee args)) R)
    (hrequire : ∀ {recorded s₂}, C.Leads s s₂ → R recorded s₂.graph →
      C.Follows s₂ (Action.require recorded) Q)
    (hdeferred : ∀ {recorded g}, R recorded g → Q recorded g)
    (hconstrained : ∀ {recorded s₂}, C.Leads s s₂ → R recorded s₂.graph →
      C.Follows s₂ (Action.constrainedCall callee args recorded) Q) :
    C.Follows s (Action.dependentCall callee args) Q := by
  refine bind hs htype fun t s₁ hs₁ hleads₁ ht _ => ?_
  refine bind hs₁ (hrecord hleads₁ ht) fun recorded s₂ hs₂ hleads₂ hrecorded _ => ?_
  have hleads := C.trans hs hleads₁ hleads₂
  refine context_bind ?_
  split
  · exact hrequire hleads hrecorded
  · split
    · exact pure hs₂ (hdeferred hrecorded)
    · exact hconstrained hleads hrecorded

theorem call {callee : ExprHandle} {args : List ExprHandle}
    (hdependent : (s.graph.isTypeDependent callee || args.any s.graph.isTypeDependent) = true →
      C.Follows s (Action.dependentCall callee args) Q)
    (hresolved : (s.graph.isTypeDependent callee || args.any s.graph.isTypeDependent) = false →
      C.Follows s (Action.attempt (Build.resolvedCall callee args)) Q) :
    C.Follows s (Action.call callee args) Q := by
  refine graph_bind ?_
  split
  · next hdep => exact hdependent hdep
  · next hdep => exact hresolved (eq_false_of_ne_true hdep)

/-! ## Names -/

theorem lookupLocal? (hs : C.Holds s) (hstale : C.Fails (.misuse .staleScope)) (n : NameHandle) :
    C.Follows s (Action.lookupLocal? n) fun _ _ => True := by
  refine context_bind ?_
  unfold Context.lookupLocal?
  split
  · exact pure hs trivial
  · next hl =>
    split at hl
    · cases hl
    · cases hl
      exact throw hs hstale

theorem nameExpr (hs : C.Holds s) (herror : ∀ cause, C.Fails (.error cause))
    (hreference : ∀ d, C.Follows s (Action.construct (.referenceTo d)) fun _ _ => True)
    (htemplate : ∀ d, C.Follows s (Action.construct (.templateReference d)) fun _ _ => True)
    (n : NameHandle) : C.Follows s (Action.nameExpr n) fun _ _ => True := by
  refine context_bind ?_
  split
  · exact graph_bind (throw hs (herror _))
  · next d _ =>
    refine graph_bind ?_
    split
    all_goals first
      | exact hreference d
      | exact htemplate d
      | exact throw hs (herror _)

end Course.Follows

/-! ## Declaring -/

/-- The steps of declaring and defining stay on the course. -/
structure Course.Declares {ρ : Type} (C : Course ρ) : Prop where
  error (cause : SemanticError) : C.Fails (.error cause)
  stale : C.Fails (.misuse .staleScope)
  bindName {s : Session ρ} (n : NameHandle) (d : DeclHandle) :
    C.Holds s → C.Leads s (s.enter (·.bind n d))
  restore {s s' : Session ρ} : C.Holds s → C.Leads s s' →
    C.Follows s' (Action.restore s.context.marks) fun _ _ => True
  currentScope {s : Session ρ} : C.Holds s → C.Names s.graph s.context.currentScope
  setContext {s : Session ρ} {d owner : DeclHandle} : C.Holds s → C.Completes d →
    C.Names s.graph owner → C.Follows s (Action.build (.setContext d owner)) fun _ _ => True
  setContexts {s : Session ρ} {ds : List DeclHandle} {owner : DeclHandle} : C.Holds s →
    (∀ d ∈ ds, C.Completes d) → C.Names s.graph owner →
      C.Follows s (Action.build (.setContexts ds owner)) fun _ _ => True
  variableDecl {s : Session ρ} {n : NameHandle} {t : TypeHandle} : C.Holds s →
    C.Names s.graph n → C.Names s.graph t →
      C.Follows s (Action.build (.variableDecl n t none)) C.Owns
  initVariable {s : Session ρ} {d : DeclHandle} {t : TypeHandle} {written : Option InitSyntax} :
    C.Holds s → C.Completes d → C.Names s.graph t →
      (∀ i, written = some i → ∀ e ∈ i.exprs, C.Names s.graph e) →
        C.Follows s (Action.build (Build.initVariable d t written).run) fun _ _ => True
  functionDecl {s : Session ρ} {n : NameHandle} {params : List DeclHandle} {ret : TypeHandle} :
    C.Holds s → C.Names s.graph n → C.Names s.graph ret →
      C.Follows s (Action.construct (.functionDecl n params ret)) C.Owns
  classDecl {s : Session ρ} {n : NameHandle} : C.Holds s → C.Names s.graph n →
    C.Follows s (Action.build (.classDecl n)) C.Owns
  classDefinition {s : Session ρ} {members : List DeclHandle} : C.Holds s →
    (∀ m ∈ members, C.Names s.graph m) →
      C.Follows s (Action.build (.defn (.ofClass members))) fun x g => C.Names g x
  functionDefinition {s : Session ρ} {stmt : StmtHandle} : C.Holds s → C.Names s.graph stmt →
    C.Follows s (Action.build (.defn (.function stmt))) fun x g => C.Names g x
  define {s : Session ρ} {d : DeclHandle} {defn : DefHandle} : C.Holds s → C.Completes d →
    C.Names s.graph defn → C.Follows s (Action.construct (.define d defn)) fun _ _ => True
  templateDecl {s : Session ρ} {params : List DeclHandle} {pattern : DeclHandle}
    {constraint : Option ExprHandle} : C.Holds s → (∀ d ∈ params, C.Names s.graph d) →
      C.Names s.graph pattern → (∀ e, constraint = some e → C.Names s.graph e) →
        C.Follows s (Action.build (.templateDecl params pattern constraint)) C.Owns
  conceptOfExpr {s : Session ρ} {n : NameHandle} {params : List DeclHandle} {e : ExprHandle} :
    C.Holds s → C.Names s.graph n → (∀ d ∈ params, C.Names s.graph d) → C.Names s.graph e →
      C.Follows s (Action.build (.conceptOfExpr n params e)) C.Owns
  requiresExpr {s : Session ρ} {tparams params : List DeclHandle} {reqs : List ReqHandle} :
    C.Holds s → (∀ d ∈ tparams, C.Names s.graph d) → (∀ d ∈ params, C.Names s.graph d) →
      (∀ r ∈ reqs, C.Names s.graph r) →
        C.Follows s (Action.build (.requiresExpr tparams params reqs)) fun _ _ => True

namespace Course.Follows

variable {ρ α : Type} {C : Course ρ} {s : Session ρ} (hC : C.Declares)
include hC

theorem declare (hs : C.Holds s) {d : DeclHandle} (hd : C.Completes d) :
    C.Follows s (Action.declare d) fun _ _ => True := by
  refine graph_bind (bind hs (lookupLocal? hs hC.stale _) fun earlier s₁ hs₁ _ _ _ => ?_)
  split
  · exact throw hs₁ (hC.error _)
  · refine bind hs₁ (modifyContext (hC.bindName _ d hs₁)) fun _ s₂ hs₂ _ _ _ => ?_
    exact context_bind (hC.setContext hs₂ hd (hC.currentScope hs₂))

theorem declareAll {ds : List DeclHandle} (hds : ∀ d ∈ ds, C.Completes d) (hs : C.Holds s) :
    C.Follows s (Action.declareAll ds) fun _ _ => True := by
  induction ds generalizing s with
  | nil => exact pure hs trivial
  | cons d ds ih =>
    obtain ⟨hd, hds⟩ := List.forall_mem_cons.1 hds
    exact bind hs (declare hC hs hd) fun _ s₁ hs₁ _ _ _ => ih hds hs₁

/-- The marks that are restored if the variable cannot be initialized were taken before it was
declared. -/
theorem variableDecl (hs : C.Holds s) {n : NameHandle} {t : TypeHandle}
    {written : Option InitSyntax} (hn : C.Names s.graph n) (ht : C.Names s.graph t)
    (hw : ∀ i, written = some i → ∀ e ∈ i.exprs, C.Names s.graph e) :
    C.Follows s (Action.variableDecl n t written) fun _ _ => True := by
  refine bind hs (hC.variableDecl hs hn ht) fun d s₁ hs₁ hleads₁ hd _ => context_bind ?_
  refine bind hs₁ (declare hC hs₁ hd.2) fun _ s₂ hs₂ hleads₂ _ _ => ?_
  have hleads := C.trans hs hleads₁ hleads₂
  refine bind hs₂ (hC.initVariable hs₂ hd.2 (C.names hleads ht)
    fun i hi e he => C.names hleads (hw i hi e he)) fun r s₃ hs₃ hleads₃ _ _ => ?_
  split
  · exact pure hs₃ trivial
  · refine bind hs₃ (hC.restore hs₁ (C.trans hs₁ hleads₂ hleads₃)) fun _ s₄ hs₄ _ _ _ => ?_
    exact throw hs₄ (hC.error _)

theorem functionDecl (hs : C.Holds s) {n : NameHandle} {params : List DeclHandle}
    {ret : TypeHandle} (hn : C.Names s.graph n) (hr : C.Names s.graph ret)
    (hp : ∀ p ∈ params, C.Completes p) :
    C.Follows s (Action.functionDecl n params ret) fun _ _ => True := by
  refine bind hs (hC.functionDecl hs hn hr) fun f s₁ hs₁ _ hf _ => ?_
  refine bind hs₁ (declare hC hs₁ hf.2) fun _ s₂ hs₂ hleads₂ _ _ => ?_
  refine bind hs₂ (hC.setContexts hs₂ hp (C.names hleads₂ hf.1)) fun _ s₃ hs₃ _ _ _ => ?_
  exact pure hs₃ trivial

theorem classDecl (hs : C.Holds s) {n : NameHandle} (hn : C.Names s.graph n) :
    C.Follows s (Action.classDecl n) fun _ _ => True := by
  refine bind hs (hC.classDecl hs hn) fun d s₁ hs₁ _ hd _ => ?_
  exact bind hs₁ (declare hC hs₁ hd.2) fun _ s₂ hs₂ _ _ _ => pure hs₂ trivial

theorem defineClass (hs : C.Holds s) {d : DeclHandle} {members : List DeclHandle}
    (hd : C.Owns d s.graph) (hm : ∀ m ∈ members, C.Owns m s.graph) :
    C.Follows s (Action.defineClass d members) fun _ _ => True := by
  refine bind hs (hC.classDefinition hs fun m hmem => (hm m hmem).1)
    fun x s₁ hs₁ hleads₁ hx _ => ?_
  refine bind hs₁ (hC.setContexts hs₁ (fun m hmem => (hm m hmem).2) (C.names hleads₁ hd.1))
    fun _ s₂ hs₂ hleads₂ _ _ => ?_
  exact hC.define hs₂ hd.2 (C.names hleads₂ hx)

/-! ## Constructs with a body -/

/-- The parameters are declared in the new frame, and the body goes on from there. -/
theorem framed (hF : C.Frames) (hs : C.Holds s) {f : Frame} (hf : C.Enters s.graph f)
    {params : List DeclHandle} (hp : ∀ p ∈ params, C.Completes p) {x : Action ρ α}
    {P : α → Graph → Prop}
    (hb : ∀ s₁, Action.Begins f.enter params s s₁ → C.Holds s₁ → C.Follows s₁ x P) :
    C.Follows s (Action.within f (Action.declareAll params >>= fun _ => x)) P := by
  have henter := hF.enter hs hf
  exact within hF hs (bind henter (declareAll hC hp henter)
    fun _ s₁ hs₁ _ _ hbegins => hb s₁ hbegins hs₁)

theorem defineFunction (hs : C.Holds s) {f : DeclHandle} {body : Action ρ StmtHandle}
    (hf : C.Completes f)
    (hb : ∀ {t params defn}, (s.graph.decl f).form = .function t params defn →
      C.Follows s (Action.withScope f (Action.declareAll params >>= fun _ => body))
        fun stmt g => C.Names g stmt) :
    C.Follows s (Action.defineFunction f body) fun _ _ => True := by
  refine graph_bind ?_
  split
  · next t params defn hform =>
    refine bind hs (hb hform) fun stmt s₁ hs₁ _ hstmt _ => ?_
    refine bind hs₁ (hC.functionDefinition hs₁ hstmt) fun x s₂ hs₂ _ hx _ => ?_
    exact hC.define hs₂ hf hx
  · exact throw hs (hC.error _)

theorem templateDecl (hs : C.Holds s) {params : List DeclHandle} {constraint : Option ExprHandle}
    {pattern : Action ρ DeclHandle} (hp : ∀ d ∈ params, C.Owns d s.graph)
    (hc : ∀ e, constraint = some e → C.Names s.graph e)
    (hb : C.Follows s (Action.withTemplate params constraint
      (Action.declareAll params >>= fun _ => pattern)) C.Owns) :
    C.Follows s (Action.templateDecl params constraint pattern) fun _ _ => True := by
  have hcomplete : ∀ d ∈ params, C.Completes d := fun d hmem => (hp d hmem).2
  refine bind hs hb fun d s₁ hs₁ hleads₁ hd _ => ?_
  refine bind hs₁ (hC.templateDecl hs₁ (fun p hmem => C.names hleads₁ (hp p hmem).1) hd.1
    fun e he => C.names hleads₁ (hc e he)) fun t s₂ hs₂ _ ht _ => ?_
  refine bind hs₂ (declare hC hs₂ ht.2) fun _ s₃ hs₃ hleads₃ _ _ => ?_
  have ht₃ := C.names hleads₃ ht.1
  refine bind hs₃ (hC.setContext hs₃ hd.2 ht₃) fun _ s₄ hs₄ hleads₄ _ _ => ?_
  refine bind hs₄ (hC.setContexts hs₄ hcomplete (C.names hleads₄ ht₃)) fun _ s₅ hs₅ _ _ _ => ?_
  exact pure hs₅ trivial

theorem conceptDecl (hs : C.Holds s) {n : NameHandle} {params : List DeclHandle}
    {definition : Action ρ ExprHandle} (hn : C.Names s.graph n)
    (hp : ∀ d ∈ params, C.Owns d s.graph)
    (hb : C.Follows s (Action.withTemplate params none
      (Action.declareAll params >>= fun _ => definition)) fun e g => C.Names g e) :
    C.Follows s (Action.conceptDecl n params definition) fun _ _ => True := by
  refine bind hs hb fun e s₁ hs₁ hleads₁ he _ => ?_
  refine bind hs₁ (hC.conceptOfExpr hs₁ (C.names hleads₁ hn)
    (fun p hmem => C.names hleads₁ (hp p hmem).1) he) fun d s₂ hs₂ _ hd _ => ?_
  refine bind hs₂ (declare hC hs₂ hd.2) fun _ s₃ hs₃ hleads₃ _ _ => ?_
  refine bind hs₃ (hC.setContexts hs₃ (fun p hmem => (hp p hmem).2) (C.names hleads₃ hd.1))
    fun _ s₄ hs₄ _ _ _ => ?_
  exact pure hs₄ trivial

theorem requiresExpr (hs : C.Holds s) {tparams params : List DeclHandle}
    {reqs : Action ρ (List ReqHandle)} (ht : ∀ d ∈ tparams, C.Names s.graph d)
    (hp : ∀ d ∈ params, C.Names s.graph d)
    (hb : C.Follows s (Action.withRequirements (Action.declareAll params >>= fun _ => reqs))
      fun rs g => ∀ r ∈ rs, C.Names g r) :
    C.Follows s (Action.requiresExpr tparams params reqs) fun _ _ => True := by
  refine bind hs hb fun rs s₁ hs₁ hleads hrs _ => ?_
  exact hC.requiresExpr hs₁ (fun d hd => C.names hleads (ht d hd))
    (fun d hd => C.names hleads (hp d hd)) hrs

end Course.Follows
end SemanticCore
