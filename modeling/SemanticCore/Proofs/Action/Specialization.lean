import SemanticCore.Proofs.Action.Nesting
import SemanticCore.Proofs.Action.Strictness
import SemanticCore.Proofs.Template.Freshness

/-!
# Specializing for a call

A call of a function template deduces the template arguments and specializes the template to them.
With the oracle that answers by structure the second step never fails after the first one, so a call
does not fail for want of a specialization; nor does it fail because the callee turns out to name no
template, or the specialization to be no function.  The type of the call is the return type of the
specialization, that is the template's with the arguments substituted.

* `Course.possible.call` — **what a call never fails with.**
* `Action.call_eq_templateCall` — a call that reaches its template goes on as a call of it.
* `Session.specializes_deduced` — **what is deduced for a call is specialized to**, and what type
  the call has then.
-/

set_option autoImplicit false
namespace SemanticCore

open SemanticCore.Graph

/-- A failure that no call ends with: a callee that names a template names none, or a specialization
to what was deduced fails, or is no function. -/
def Failure.isImpossible : Failure → Bool
  | error (.type (.noMatchingCall _ (.specialization _)))
  | error (.fault (.notATemplate _))
  | error (.fault (.specializationNotAFunction _)) => true
  | _ => false

/-- A call has the type that it is recorded with. -/
theorem Build.call_exprType (t : TypeHandle) (callee : ExprHandle) (args : List ExprHandle)
    (g : Graph) : Graph.exprType (call t callee args g).2 (call t callee args g).1 = t :=
  congrArg Expr.type ((getD_push g.exprs _ default _).trans (if_pos rfl))

namespace Action

variable {ρ : Type} {s : Session ρ}

/-! ## Resolving a template -/

variable {callee : ExprHandle} {args : List ExprHandle} {template pattern : DeclHandle}
  {tparams params : List DeclHandle} {constraint : Option ExprHandle} {t : TypeHandle}
  {defn : Option DefHandle}

/-- Resolving a template fails if the deduction does, and otherwise gives a function whose return
type is the substituted one. -/
theorem resolveTemplate_cases (callee : ExprHandle) (hg : s.graph.WellFormed)
    (htemplate : (s.graph.decl template).form = .template tparams pattern constraint)
    (hpattern : (s.graph.decl pattern).form = .function t params defn)
    (ha : ∀ e ∈ args, s.graph.contains e = true) :
    (∃ e g₁, Build.deduce tparams params args s.graph = (.error e, g₁) ∧
      resolveTemplate .structural callee template tparams params args s =
        (.error (.error (.type (.noMatchingCall callee (.deduction e)))),
          { s with graph := g₁ })) ∨
    ∃ σ g₁ spec g₂ ret r, Build.deduce tparams params args s.graph = (.ok σ, g₁) ∧
      g₁.Grows g₂ ∧ g₂.WellFormed ∧
      resolveTemplate .structural callee template tparams params args s =
        (.ok spec, { s with graph := g₂ }) ∧
      s.graph.functionRet? t = some ret ∧
      (g₂.declaredType? spec).bind g₂.functionRet? = some r ∧ g₂.Substitutes σ ret r := by
  rcases hdeduce : Build.deduce tparams params args s.graph with ⟨e | σ, g₁⟩
  · exact .inl ⟨e, g₁, rfl, attempt_of_error (Attempt.adapt_of_error
      (Attempt.bind_of_error (Attempt.adapt_of_error hdeduce _)) _)⟩
  · obtain ⟨spec, g₂, hspecialize, hgrow₂, -, hspec⟩ :=
      hg.specialize_deduced htemplate hpattern ha hdeduce
    have hgrow₁ : s.graph.Grows g₁ := by
      have h := (hg.yields_deduce tparams params ha).1
      rwa [hdeduce] at h
    have hresolve : Oracle.structural.resolve template tparams params args s.graph =
        (.ok spec, g₂) :=
      (Attempt.bind_of_ok (Attempt.adapt_of_ok hdeduce _)).trans
        (Attempt.adapt_of_ok hspecialize _)
    obtain ⟨_, ret, _, _, _, r, hp₂, hform, hr, -, hsub⟩ := hspec
    obtain ⟨ret', hp⟩ := hg.functionPattern?_eq htemplate hpattern
    have hret : s.graph.functionRet? t = some ret := by
      obtain ⟨-, rfl⟩ := Prod.mk.inj (Option.some.inj
        (hp₂.symm.trans ((hgrow₁.trans hgrow₂).extends.functionPattern? hp)))
      simp only [functionPattern?, htemplate, hpattern, Option.map_eq_some_iff] at hp
      obtain ⟨_, hret, heq⟩ := hp
      rw [hret, (Prod.mk.inj heq).2]
    refine .inr ⟨σ, g₁, spec, g₂, ret, r, rfl, hgrow₂, (hgrow₁.trans hgrow₂).wellFormed hg,
      attempt_of_ok (Attempt.adapt_of_ok hresolve _), hret, ?_, hsub⟩
    rw [declaredType?, hform]
    exact hr

/-- What a template was specialized to for a call is its specialization to what is deduced. -/
theorem Specializes.deduced {s₁ : Session ρ} {spec : DeclHandle}
    (h : Specializes callee template args s s₁ spec) (hs : s.Fits)
    (ho : s.context.oracle = .structural) (ha : ∀ e ∈ args, s.graph.contains e = true)
    (htemplate : (s.graph.decl template).form = .template tparams pattern constraint)
    (hpattern : (s.graph.decl pattern).form = .function t params defn) :
    ∃ σ g₁ ret r, Build.deduce tparams params args s.graph = (.ok σ, g₁) ∧
      g₁.Grows s₁.graph ∧ s.graph.functionRet? t = some ret ∧
      (s₁.graph.declaredType? spec).bind s₁.graph.functionRet? = some r ∧
      s₁.graph.Substitutes σ ret r := by
  obtain ⟨htemplate', hpattern', hrun⟩ := h
  cases htemplate'.symm.trans htemplate
  cases hpattern'.symm.trans hpattern
  rw [ho] at hrun
  rcases resolveTemplate_cases callee hs.graph htemplate hpattern ha with
    ⟨e, g₁, -, hrun'⟩ | ⟨σ, g₁, spec', g₂, ret, r, hdeduce, hgrow, -, hrun', hret, hr, hsub⟩
  · cases hrun.symm.trans hrun'
  · cases hrun.symm.trans hrun'
    exact ⟨σ, g₁, ret, r, hdeduce, hgrow, hret, hr, hsub⟩

end Action

/-! ## What a call never fails with -/

/-- The oracle answers by structure, the graph grows and the frames stay, and a failure is one that
some call ends with. -/
def Course.possible {ρ : Type} : Course ρ where
  Holds s := s.Fits ∧ s.context.oracle = .structural
  Leads := Session.Leads
  Fails e := e.isImpossible = false
  Names g x := g.contains x = true
  Completes _ := True
  refl _ := .refl _
  trans _ h h' := h.trans h'
  holds hs h := ⟨h.fits hs.1, h.frames.oracle.trans hs.2⟩
  names := Course.growing.names

namespace Course.possible

variable {ρ α : Type} {s : Session ρ} {x : Action ρ α} {Q : α → Graph → Prop}

theorem of_growing (hx : Course.growing.Follows s x Q)
    (hfails : ∀ e, (x s).1 = .error e → e.isImpossible = false) : Course.possible.Follows s x Q :=
  ⟨hx.leads, hx.result, hfails⟩

theorem of_build {x : Build α} (hx : Course.growing.Follows s (Action.build x) Q) :
    Course.possible.Follows s (Action.build x) Q :=
  of_growing hx (by rintro _ ⟨⟩)

variable {callee : ExprHandle} {args : List ExprHandle} {template pattern : DeclHandle}
  {tparams params : List DeclHandle} {constraint : Option ExprHandle} {t : TypeHandle}
  {defn : Option DefHandle}

/-- The only thing that can go wrong in resolving a template is the deduction. -/
theorem resolveTemplate (hs : s.Fits) (ho : s.context.oracle = .structural)
    (htemplate : (s.graph.decl template).form = .template tparams pattern constraint)
    (hpattern : (s.graph.decl pattern).form = .function t params defn)
    (ha : ∀ e ∈ args, s.graph.contains e = true) :
    Course.possible.Follows s
      (Action.resolveTemplate s.context.oracle callee template tparams params args)
      fun _ _ => True := by
  refine of_growing (Course.growing.resolveTemplate hs callee htemplate hpattern ha) fun e he => ?_
  rw [ho] at he
  rcases Action.resolveTemplate_cases callee hs.graph htemplate hpattern ha with
    ⟨_, _, -, hrun⟩ | ⟨_, _, _, _, _, _, -, -, -, hrun, -⟩
  · cases he.symm.trans (congrArg Prod.fst hrun)
    rfl
  · cases he.symm.trans (congrArg Prod.fst hrun)

/-- The call of a template fails if nothing is deduced, or if it is not covered.  Otherwise it has
the return type of the template's function, with the arguments substituted that are deduced for the
call. -/
theorem templateCall (hs : s.Fits) (ho : s.context.oracle = .structural)
    (hd : s.graph.isTemplateDecl template = true) (hc : s.graph.contains callee = true)
    (ha : ∀ e ∈ args, s.graph.contains e = true) :
    Course.possible.Follows s (Action.templateCall callee template args) fun e g =>
      ∀ {tparams pattern constraint t params defn},
        (s.graph.decl template).form = .template tparams pattern constraint →
        (s.graph.decl pattern).form = .function t params defn →
          ∃ σ g₁ ret, Build.deduce tparams params args s.graph = (.ok σ, g₁) ∧ g₁.Extends g ∧
            s.graph.functionRet? t = some ret ∧ g.Substitutes σ ret (g.exprType e) := by
  have hholds : (Course.possible : Course ρ).Holds s := ⟨hs, ho⟩
  refine .templateCall hholds ⟨fun hnot => ?_, fun _ => rfl, fun hspec hnone => ?_, rfl⟩
    (fun htemplate hpattern => resolveTemplate hs ho htemplate hpattern ha)
    (fun htemplate => Course.growing.subsumes hs htemplate)
    (fun _ _ _ => ⟨.refl _, rfl, rfl, rfl⟩) fun {s₁ s₂ spec ret} hspec hret hleads₁ hleads₂ => ?_
  · rw [isTemplateDecl] at hd
    split at hd
    · next htemplate => exact absurd htemplate (hnot _ _ _)
    · cases hd
  · have hspec' := hspec
    obtain ⟨htemplate, hpattern, -⟩ := hspec'
    obtain ⟨_, _, _, r, -, -, -, hr, -⟩ := hspec.deduced hs ho ha htemplate hpattern
    cases hnone.symm.trans hr
  · have hbuild := Course.growing.recordCall hs hc ha hret hleads₁ hleads₂
    refine .build hbuild.leads fun htemplate hpattern => ?_
    obtain ⟨σ, g₁, ret', r, hdeduce, hgrow, hret', hr, hsub⟩ :=
      hspec.deduced hs ho ha htemplate hpattern
    cases hret.symm.trans hr
    have hext := hleads₂.grows.extends.trans hbuild.leads.grows.extends
    refine ⟨σ, g₁, ret', hdeduce, hgrow.extends.trans hext, hret', ?_⟩
    rw [Build.call_exprType]
    exact hsub.extend (hleads₁.fits hs).graph hext

theorem resolvedCall (hs : s.Fits) (hc : s.graph.contains callee = true)
    (ha : ∀ e ∈ args, s.graph.contains e = true) :
    Course.possible.Follows s (Action.attempt (.resolvedCall callee args)) fun _ _ => True := by
  refine of_growing (Course.growing.resolvedCall hs hc ha) fun e he => ?_
  rcases hx : Build.resolvedCall callee args s.graph with ⟨cause | x, g⟩
  · rw [Action.attempt_of_error hx] at he
    cases he
    rw [Build.resolvedCall, Attempt.get_bind] at hx
    cases hnamed : s.graph.namedFunction? callee with
    | none =>
      rw [hnamed] at hx
      cases hx
      rfl
    | some named =>
      rw [hnamed] at hx
      dsimp only at hx
      by_cases hlen : named.1 = args.length
      · rw [if_pos hlen] at hx
        cases hx
      · rw [if_neg hlen] at hx
        cases hx
        rfl
  · rw [Action.attempt_of_ok hx] at he
    cases he

/-- **A call never fails because what was deduced cannot be specialized to**, nor because a callee
that names a template does not, or a specialization is no function. -/
theorem call (hs : s.Fits) (ho : s.context.oracle = .structural)
    (hc : s.graph.contains callee = true) (ha : ∀ e ∈ args, s.graph.contains e = true) :
    Course.possible.Follows s (Action.call callee args) fun _ _ => True := by
  have hholds : ∀ {s₁ : Session ρ}, s.Leads s₁ → Course.possible.Holds s₁ :=
    fun hleads => ⟨hleads.fits hs, hleads.frames.oracle.trans ho⟩
  refine .call (fun _ => .dependentCall (R := fun e g => g.contains e = true) (hholds (.refl s))
    (of_build (Course.growing.build Build.Makes.autoType)) (fun hleads ht => ?_)
    (fun hleads _ => of_growing (Course.growing.require (hleads.fits hs) _) (by rintro _ ⟨⟩))
    (fun _ => trivial) fun {recorded s₂} hleads hr => ?_) fun _ => resolvedCall hs hc ha
  · exact of_build (Course.growing.build (Build.Makes.call ht (hleads.grows.contains hc)
      fun e he => hleads.grows.contains (ha e he)))
  · have hs₂ := hleads.fits hs
    refine .constrainedCall (hholds hleads) rfl (fun _ => rfl)
      (fun _ hcurrent => Course.growing.admission hs₂ hcurrent hr) (fun _ _ _ _ => trivial)
      fun {template s₃} hform hleads' => ?_
    have hleads₃ := hleads.trans hleads'
    have hs₃ := hleads₃.fits hs
    have hc₃ := hleads₃.grows.contains hc
    exact (templateCall hs₃ (hleads₃.frames.oracle.trans ho)
      (hs₃.graph.fits_of_expr hc₃ hform).2.1 hc₃
      fun e he => hleads₃.grows.contains (ha e he)).mono fun _ _ _ => trivial

end Course.possible

namespace Action

variable {ρ : Type} {s : Session ρ} {callee : ExprHandle} {args : List ExprHandle}
  {template : DeclHandle}

/-- A call that reaches its template goes on as a call of it, once it is recorded and the constraint
in force was asked for it. -/
theorem call_eq_templateCall (ho : s.context.oracle = .structural)
    (hc : s.graph.contains callee = true)
    (h : s.context.ReachesTemplate s.graph callee args template) :
    call callee args s = templateCall callee template args
      { s with graph := s.context.asked s.graph callee args } := by
  have hadmitted : (s.context.admission (Build.recordedCall callee args s.graph).1
      (Build.recordedCall callee args s.graph).2).1 = none := by
    have hnone := h.notAdmitted
    rw [Context.admits] at hnone
    rw [Context.admission, ho]
    cases hcurrent : s.context.currentConstraint? with
    | none => rfl
    | some constraints =>
      rw [hcurrent] at hnone
      exact Option.isNone_iff_eq_none.1 (Option.isSome_eq_false_iff.1 hnone)
  have hform : (Graph.expr (s.context.admission (Build.recordedCall callee args s.graph).1
      (Build.recordedCall callee args s.graph).2).2 callee).form = .templateRef template :=
    (congrArg Expr.form ((Context.extends_asked ho s.graph callee args).expr hc)).trans h.callee
  have hdependent : call callee args s = dependentCall callee args s :=
    congrFun (if_pos h.dependent) s
  have hconstrained : dependentCall callee args s =
      constrainedCall callee args (Build.recordedCall callee args s.graph).1
        { s with graph := (Build.recordedCall callee args s.graph).2 } := by
    refine Eq.trans (b := (if s.context.inRequirements then
      require (Build.recordedCall callee args s.graph).1
      else if s.context.inUnconstrainedTemplate then
        pure (Build.recordedCall callee args s.graph).1
      else constrainedCall callee args (Build.recordedCall callee args s.graph).1)
      { s with graph := (Build.recordedCall callee args s.graph).2 }) rfl ?_
    rw [h.notRequired, h.notPutOff, if_neg Bool.false_ne_true, if_neg Bool.false_ne_true]
  have hgraph : ∀ (f : Graph → Action ρ ExprHandle) (s₁ : Session ρ),
      (graph >>= f) s₁ = f s₁.graph s₁ := fun _ _ => rfl
  rw [hdependent, hconstrained, constrainedCall, bind_of_ok (admitted?_eq _ _)]
  dsimp only
  rw [hadmitted]
  dsimp only
  rw [hgraph, hform]
  rfl

end Action

/-- Recording a call and asking the constraint in force for it adds to the graph. -/
theorem Context.Fits.grows_asked {c : Context} {g : Graph} (hc : c.Fits g) (hg : g.WellFormed)
    (ho : c.oracle = .structural) {callee : ExprHandle} {args : List ExprHandle}
    (hcallee : g.contains callee = true) (ha : ∀ e ∈ args, g.contains e = true) :
    g.Grows (c.asked g callee args) := by
  obtain ⟨hgrow, -⟩ := Action.Build.Yields.recordedCall hg hcallee ha
  refine hgrow.trans ?_
  change (Build.recordedCall callee args g).2.Grows
    (c.admission (Build.recordedCall callee args g).1 (Build.recordedCall callee args g).2).2
  rw [Context.admission, ho]
  cases hcurrent : c.currentConstraint? with
  | none => exact .refl _
  | some constraints =>
    exact (Build.Yields.admission? (hgrow.wellFormed hg) _
      (hgrow.contains (hc.currentConstraint? hcurrent))).1

/-! ## What is deduced is specialized to -/

/-- Deducing the arguments of a template, whose function has the type `t` and the parameters
`params`, and specializing to them go together. -/
structure Session.SpecializesDeduced {ρ : Type} (s : Session ρ) (template : DeclHandle)
    (tparams params : List DeclHandle) (t : TypeHandle) (args : List ExprHandle) : Prop where
  /-- What is deduced can be specialized to. -/
  specialize {σ : Substitution} {g' : Graph}
    (hdeduce : Build.deduce tparams params args s.graph = (.ok σ, g')) :
    ∃ spec g'', Build.specialize template σ g' = (.ok spec, g'') ∧
      g'.SpecializedTo g'' σ t params spec
  /-- No call fails because it could not be. -/
  call_error {callee x : ExprHandle} {cause : SpecializationError}
    (hc : s.graph.contains callee = true) : (Action.call callee args s).1 ≠
      .error (.error (.type (.noMatchingCall x (.specialization cause))))
  /-- A call that is resolved by resolving the template has the return type of the template's
  function, with the arguments substituted that are deduced for the call. -/
  call_type {callee e : ExprHandle} {s' : Session ρ} (hc : s.graph.contains callee = true)
    (hreach : s.context.ReachesTemplate s.graph callee args template)
    (hcall : Action.call callee args s = (.ok e, s')) : ∃ σ ret,
      (Build.deduce tparams params args (s.context.asked s.graph callee args)).1 = .ok σ ∧
      Build.deduce tparams params args s'.graph = (.ok σ, s'.graph) ∧
      s'.graph.functionRet? t = some ret ∧
      Build.substitute σ ret s'.graph = (s'.graph.exprType e, s'.graph)

namespace Session

variable {ρ : Type} {s : Session ρ} {template pattern : DeclHandle}
  {tparams params : List DeclHandle} {constraint : Option ExprHandle} {t : TypeHandle}
  {defn : Option DefHandle} {args : List ExprHandle}

/-- **What is deduced for a function template is specialized to**, and gives the call its type. -/
theorem specializes_deduced (hg : s.graph.Reachable) (hc : s.context.Fits s.graph)
    (ho : s.context.oracle = .structural)
    (htemplate : (s.graph.decl template).form = .template tparams pattern constraint)
    (hpattern : (s.graph.decl pattern).form = .function t params defn)
    (ha : ∀ e ∈ args, s.graph.contains e = true) :
    s.SpecializesDeduced template tparams params t args where
  specialize hdeduce := by
    obtain ⟨spec, g'', hrun, -, hspec, -⟩ :=
      hg.wellFormed.specialize_deduced htemplate hpattern ha hdeduce
    exact ⟨spec, g'', hrun, hspec⟩
  call_error hcallee h := by
    have hfails := (Course.possible.call ⟨hg.wellFormed, hc⟩ ho hcallee ha).fails _ h
    cases hfails
  call_type {callee e s'} hcallee hreach hcall := by
    have hgrow := hc.grows_asked hg.wellFormed ho hcallee ha
    have hg' := hgrow.wellFormed hg.wellFormed
    have ha' : ∀ a ∈ args, (s.context.asked s.graph callee args).contains a = true :=
      fun a hmem => hgrow.contains (ha a hmem)
    have htemplate' := hgrow.extends.template htemplate
    obtain ⟨defn', hpattern'⟩ := hgrow.extends.function hpattern
    rw [Action.call_eq_templateCall ho hcallee hreach] at hcall
    have hs' : Session.Fits { s with graph := s.context.asked s.graph callee args } :=
      ⟨hg', hc.extend hgrow⟩
    have hnames : (s.context.asked s.graph callee args).isTemplateDecl template = true := by
      rw [isTemplateDecl, htemplate']
    have htype := (Course.possible.templateCall hs' ho hnames (hgrow.contains hcallee)
      ha').result e (congrArg Prod.fst hcall) htemplate' hpattern'
    rw [hcall] at htype
    obtain ⟨σ, g₁, ret, hdeduce, hext, hret, hsub⟩ := htype
    have hgrow₁ := (hg'.yields_deduce tparams params ha').1
    rw [hdeduce] at hgrow₁
    refine ⟨σ, ret, congrArg Prod.fst hdeduce, ?_,
      functionRet?_extend (hgrow₁.extends.trans hext) hret, hsub.run⟩
    exact hg'.deduce_again (hg'.contains_template htemplate').1
      (hg'.contains_functionParams hpattern') ha' hdeduce hext

/-- The graph of a template `template<typename T> T identity(T x)`, its declaration 4, of its name
and of the literal `5`, the expressions 0 and 1. -/
def identityTemplate : Graph :=
  let build : Build Unit := do
    let d ← Build.typeParam .globalName none
    if let .ok t ← (Build.typenameType d).run then
      let x ← Build.objectParam .globalName t
      if let .ok f ← (Build.functionDecl .globalName [x] t).run then
        let template ← Build.templateDecl [d] f none
        let _ ← (Build.templateReference template).run
        let _ ← Build.intLiteral 5
  (build (.initial .empty 32)).2

theorem identityTemplate_reachable : identityTemplate.Reachable := by
  have hparam := (Reachable.initial .empty 32).operation (x := Build.typeParam .globalName none)
    (.typeParam rfl (by simp))
  have htypename := hparam.operation (x := (Build.typenameType ⟨1⟩).run) (.typenameType rfl)
  have hobject := htypename.operation (x := Build.objectParam .globalName ⟨3⟩)
    (.objectParam rfl rfl)
  have hfunction := hobject.operation (x := (Build.functionDecl .globalName [⟨2⟩] ⟨3⟩).run)
    (.functionDecl rfl (by simp; rfl) rfl)
  have htemplate := hfunction.operation (x := Build.templateDecl [⟨1⟩] ⟨3⟩ none)
    (.templateDecl (by simp; rfl) rfl (by simp))
  have hname := htemplate.operation (x := (Build.templateReference ⟨4⟩).run)
    (.templateReference rfl)
  exact hname.operation (.intLiteral 5)

/-- Outside every template. -/
def outsideTemplates : Session Unit where
  graph := identityTemplate
  context := .initial default .structural
  client := ()

/-- What `T` is bound to is `int`, the type 6, so the specialization takes and returns other types
than the template's function. -/
theorem specializes_deduced_identity :
    outsideTemplates.graph.Reachable ∧
    outsideTemplates.context.Fits outsideTemplates.graph ∧
    outsideTemplates.context.oracle = .structural ∧
    (outsideTemplates.graph.decl ⟨4⟩).form = .template [⟨1⟩] ⟨3⟩ none ∧
    (outsideTemplates.graph.decl ⟨3⟩).form = .function ⟨4⟩ [⟨2⟩] none ∧
    (∀ e ∈ [(⟨1⟩ : ExprHandle)], outsideTemplates.graph.contains e = true) ∧
    outsideTemplates.SpecializesDeduced ⟨4⟩ [⟨1⟩] [⟨2⟩] ⟨4⟩ [⟨1⟩] ∧
    (Build.deduce [⟨1⟩] [⟨2⟩] [⟨1⟩] outsideTemplates.graph).1 =
      .ok ⟨[⟨1⟩], [(⟨1⟩, .type ⟨6⟩)]⟩ ∧
    outsideTemplates.context.ReachesTemplate outsideTemplates.graph ⟨0⟩ [⟨1⟩] ⟨4⟩ ∧
    ∃ e s', Action.call ⟨0⟩ [⟨1⟩] outsideTemplates = (.ok e, s') ∧
      s'.graph.type (s'.graph.exprType e) = .int true 32 := by
  have hg : outsideTemplates.graph.Reachable := identityTemplate_reachable
  have hc : outsideTemplates.context.Fits outsideTemplates.graph :=
    .initial default (Oracle.fits_structural hg.wellFormed)
  have ha : ∀ e ∈ [(⟨1⟩ : ExprHandle)], outsideTemplates.graph.contains e = true := by
    simp
    rfl
  have htemplate : (outsideTemplates.graph.decl ⟨4⟩).form = .template [⟨1⟩] ⟨3⟩ none := by
    decide +kernel
  have hpattern : (outsideTemplates.graph.decl ⟨3⟩).form = .function ⟨4⟩ [⟨2⟩] none := by
    decide +kernel
  have hreach : outsideTemplates.context.ReachesTemplate outsideTemplates.graph ⟨0⟩ [⟨1⟩] ⟨4⟩ :=
    ⟨by decide +kernel, rfl, rfl, rfl, by decide +kernel⟩
  have hcall : (Action.call ⟨0⟩ [⟨1⟩] outsideTemplates).1 = .ok ⟨3⟩ := by decide +kernel
  exact ⟨hg, hc, rfl, htemplate, hpattern, ha, specializes_deduced hg hc rfl htemplate hpattern ha,
    by decide +kernel, hreach, ⟨3⟩, _, Prod.ext hcall rfl, by decide +kernel⟩

end Session
end SemanticCore
