import SemanticCore.Proofs.Action.Verdict

/-!
# Templates inside templates

Inside several templates only the constraint of the innermost one is in force.  A call that the
constraints around it cover may therefore no longer be covered once another template is entered, one
whose constraint says less.

* `Context.Retains` — the ways in which a call that is accepted in one context can be accepted in
  another one.
* `Context.retains_iff` — there are no others.
* `Session.nested_call_accepted_iff` — **a call that is accepted is accepted inside further
  templates exactly if the innermost of them retains what is needed.**
* `Session.nested_call_uncovered` — a call for which it does not.
-/

set_option autoImplicit false
namespace SemanticCore

open SemanticCore.Graph

namespace Context

/-- The context inside further templates, of which the last one is the innermost. -/
def pushTemplates (c : Context) (frames : List TemplateFrame) : Context :=
  frames.foldl (fun c frame => c.pushTemplate frame.params frame.constraint) c

/-- What a call that is accepted in `c` needs to be accepted in `c'`.  A call that does not depend
on template parameters, or that is a requirement, needs nothing, and outside every template nothing
is required of a call that could get lost.  Inside a template without constraint every call is put
off.  Otherwise the constraint in force in `c'` has to speak of the call, or the call is that of a
template whose arguments are deduced and which asks for nothing that this constraint does not say;
both are so if they were so in `c` and the constraint implies the one of `c`. -/
inductive Retains (g : Graph) (callee : ExprHandle) (args : List ExprHandle) (c c' : Context) : Prop
  | independent (h : g.isDependentCall callee args = false)
  | required (h : c.inRequirements = true)
  | outside (h : c.inTemplate = false)
  | unconstrained (h : c'.inUnconstrainedTemplate = true)
  | admitted (h : c'.admits g callee args = true)
  /-- The template has no constraint, or one that the constraint in force in `c'` implies. -/
  | covered {template : DeclHandle} (hform : (g.expr callee).form = .templateRef template)
    (hdeduces : g.deduces template args = true) (h : c'.covers g template = true)
  | implied {ambient inner : ExprHandle} (hc : c.currentConstraint? = some ambient)
    (hc' : c'.currentConstraint? = some inner)
    (hsubsumes : (Build.subsumes inner ambient g).1 = true)
    (hadmits : g.admitsCall ambient callee args = true → g.admitsCall inner callee args = true)

variable {c c' : Context} {g : Graph} {callee : ExprHandle} {args : List ExprHandle}

/-- Entering templates changes nothing but the scopes and the templates. -/
theorem pushTemplates_eq (c : Context) (frames : List TemplateFrame) :
    (c.pushTemplates frames).requirements = c.requirements ∧
      (c.pushTemplates frames).oracle = c.oracle := by
  induction frames generalizing c with
  | nil => exact ⟨rfl, rfl⟩
  | cons frame frames ih => exact ih (c.pushTemplate frame.params frame.constraint)

theorem Fits.pushTemplates (hg : g.WellFormed) (hc : c.Fits g) {frames : List TemplateFrame}
    (hf : ∀ frame ∈ frames, ∀ e, frame.constraint = some e → g.contains e = true) :
    (c.pushTemplates frames).Fits g := by
  induction frames generalizing c with
  | nil => exact hc
  | cons frame frames ih =>
    obtain ⟨hframe, hrest⟩ := List.forall_mem_cons.1 hf
    exact ih (hc.pushTemplate hg frame.params hframe) hrest

/-- Outside every template no constraint is in force, and no call is put off for want of one. -/
theorem unconstrained_of_outside (h : c.inTemplate = false) :
    c.currentConstraint? = none ∧ c.inUnconstrainedTemplate = false := by
  have hnil : c.templates = [] := by simpa [inTemplate] using h
  simp [currentConstraint?, inUnconstrainedTemplate, hnil]

/-- A constraint that is in force belongs to a template that has one. -/
theorem inUnconstrainedTemplate_of_currentConstraint? {e : ExprHandle}
    (h : c.currentConstraint? = some e) : c.inUnconstrainedTemplate = false := by
  rw [currentConstraint?] at h
  rw [inUnconstrainedTemplate]
  cases hf : c.templates with
  | nil => rfl
  | cons frame outer =>
    rw [hf] at h
    have hframe : frame.constraint = some e := h
    dsimp only
    rw [hframe, Option.isNone_some]

/-- What is covered stays covered if the constraint in force implies the one that was. -/
theorem covers_of_subsumes (hg : g.WellFormed) (hc : c.Fits g) (hc' : c'.Fits g)
    {ambient inner : ExprHandle} (ha : c.currentConstraint? = some ambient)
    (hi : c'.currentConstraint? = some inner) (hsub : (Build.subsumes inner ambient g).1 = true)
    {template : DeclHandle} (h : c.covers g template = true) : c'.covers g template = true := by
  have hinner : g.Entails inner ambient :=
    (hg.subsumes_iff (hc'.currentConstraint? hi) (hc.currentConstraint? ha)).1 hsub
  rw [hc.covers_iff hg] at h
  rw [hc'.covers_iff hg]
  intro required hr
  obtain ⟨ambient', ha', hent⟩ := h required hr
  cases ha.symm.trans ha'
  exact ⟨inner, hi, hinner.trans hent⟩

/-- Where nothing is in force, only templates without constraint are covered, and these are covered
everywhere. -/
theorem covers_of_outside (hc : c.inTemplate = false) {template : DeclHandle}
    (h : c.covers g template = true) : c'.covers g template = true := by
  rw [covers, (unconstrained_of_outside hc).1] at h
  rw [covers]
  cases hr : g.templateConstraint? template with
  | none => rfl
  | some required =>
    rw [hr] at h
    cases h

/-- A dependent call that is not put off is accepted in two ways. -/
theorem constrainedVerdict_accepted_iff : c.constrainedVerdict g callee args = .accepted ↔
    c.admits g callee args = true ∨ ∃ template, (g.expr callee).form = .templateRef template ∧
      g.deduces template args = true ∧ c.covers g template = true := by
  rw [constrainedVerdict]
  by_cases hadm : c.admits g callee args = true
  · simp [hadm]
  · rw [if_neg hadm, or_iff_right hadm]
    cases hform : (g.expr callee).form with
    | templateRef template =>
      dsimp only
      rw [templateVerdict]
      by_cases hd : g.deduces template args = true
      · by_cases hcov : c.covers g template = true <;> simp [hd, hcov]
      · simp [hd]
    | _ => simp

/-- A dependent call is put off, or it is accepted in one of these two ways. -/
theorem verdict_accepted_iff (hdep : g.isDependentCall callee args = true) :
    c.verdict g callee args = .accepted ↔
      (c.inRequirements = true ∨ c.inUnconstrainedTemplate = true) ∨
        c.constrainedVerdict g callee args = .accepted := by
  rw [verdict, if_pos hdep, ← Bool.or_eq_true]
  by_cases hdefer : (c.inRequirements || c.inUnconstrainedTemplate) = true
  · rw [if_pos hdefer]
    exact iff_of_true rfl (.inl hdefer)
  · rw [if_neg hdefer, or_iff_right hdefer]

theorem constrainedVerdict_accepted
    (hadmits : c.admits g callee args = true → c'.admits g callee args = true)
    (hcovers : ∀ template, c.covers g template = true → c'.covers g template = true)
    (h : c.constrainedVerdict g callee args = .accepted) :
    c'.constrainedVerdict g callee args = .accepted := by
  rw [constrainedVerdict_accepted_iff] at h ⊢
  rcases h with hadm | ⟨template, hform, hdeduces, hcov⟩
  · exact .inl (hadmits hadm)
  · exact .inr ⟨template, hform, hdeduces, hcovers template hcov⟩

/-- **A call that is accepted stays accepted where it is retained.** -/
theorem Retains.accepted (hg : g.WellFormed) (hc : c.Fits g) (hc' : c'.Fits g)
    (hr : c'.requirements = c.requirements) (hret : Retains g callee args c c')
    (h : c.verdict g callee args = .accepted) : c'.verdict g callee args = .accepted := by
  have hreq : c'.inRequirements = c.inRequirements := by rw [inRequirements, hr, inRequirements]
  by_cases hdep : g.isDependentCall callee args = true
  · rw [verdict_accepted_iff hdep] at h ⊢
    cases hret with
    | independent hind => cases hind.symm.trans hdep
    | required hin => exact .inl (.inl (hreq.trans hin))
    | unconstrained hin => exact .inl (.inr hin)
    | admitted hadm => exact .inr (constrainedVerdict_accepted_iff.2 (.inl hadm))
    | covered hform hdeduces hcov =>
      exact .inr (constrainedVerdict_accepted_iff.2 (.inr ⟨_, hform, hdeduces, hcov⟩))
    | outside hout =>
      obtain ⟨hnone, hfree⟩ := unconstrained_of_outside hout
      rcases h with (hin | hin) | h
      · exact .inl (.inl (hreq.trans hin))
      · cases hfree.symm.trans hin
      · refine .inr (constrainedVerdict_accepted (fun hadm => ?_)
          (fun _ => covers_of_outside hout) h)
        rw [admits, hnone] at hadm
        cases hadm
    | implied ha hi hsub hadm =>
      rcases h with (hin | hin) | h
      · exact .inl (.inl (hreq.trans hin))
      · cases (inUnconstrainedTemplate_of_currentConstraint? ha).symm.trans hin
      · refine .inr (constrainedVerdict_accepted ?_
          (fun _ => covers_of_subsumes hg hc hc' ha hi hsub) h)
        rwa [admits, admits, ha, hi]
  · rw [verdict, if_neg hdep] at h ⊢
    exact h

/-- **A call that is accepted in one context is accepted in another one, made inside the same
requirements, exactly if it is retained.** -/
theorem retains_iff (hg : g.WellFormed) (hc : c.Fits g) (hc' : c'.Fits g)
    (hr : c'.requirements = c.requirements) (h : c.verdict g callee args = .accepted) :
    c'.verdict g callee args = .accepted ↔ Retains g callee args c c' := by
  refine ⟨fun h' => ?_, fun hret => hret.accepted hg hc hc' hr h⟩
  have hreq : c'.inRequirements = c.inRequirements := by rw [inRequirements, hr, inRequirements]
  by_cases hdep : g.isDependentCall callee args = true
  · rcases (verdict_accepted_iff hdep).1 h' with (hin | hin) | hrest
    · exact .required (hreq.symm.trans hin)
    · exact .unconstrained hin
    · rcases constrainedVerdict_accepted_iff.1 hrest with hadm | ⟨_, hform, hdeduces, hcov⟩
      · exact .admitted hadm
      · exact .covered hform hdeduces hcov
  · exact .independent (eq_false_of_ne_true hdep)

end Context

namespace Session

variable {ρ : Type} {s : Session ρ} {callee : ExprHandle} {args : List ExprHandle}

/-- The session inside further templates. -/
def nested (s : Session ρ) (frames : List TemplateFrame) : Session ρ :=
  s.enter (·.pushTemplates frames)

/-- **A call that is accepted without a report is accepted so inside further templates**, whatever
their parameters are, exactly if what it needs is retained. -/
theorem nested_call_accepted_iff (hs : s.Fits) (ho : s.context.oracle = .structural)
    (hc : s.graph.contains callee = true) (ha : ∀ e ∈ args, s.graph.contains e = true)
    {frames : List TemplateFrame}
    (hf : ∀ frame ∈ frames, ∀ e, frame.constraint = some e → s.graph.contains e = true)
    (haccepts : s.Accepts callee args) (hsilent : ¬ s.ReportsUncovered callee args) :
    (s.nested frames).Accepts callee args ∧ ¬ (s.nested frames).ReportsUncovered callee args ↔
      Context.Retains s.graph callee args s.context (s.context.pushTemplates frames) := by
  have hnested : (s.nested frames).Fits := ⟨hs.graph, hs.context.pushTemplates hs.graph hf⟩
  obtain ⟨hreq, horacle⟩ := s.context.pushTemplates_eq frames
  have hverdict := (accepts_silently_iff hs ho hc ha).1 ⟨haccepts, hsilent⟩
  exact (accepts_silently_iff hnested (horacle.trans ho) hc ha).trans
    (Context.retains_iff hs.graph hs.context hnested.context hreq hverdict)

/-- The graph of a template `template<typename T> requires C<T> T f(T x)`, its declaration 5.  The
expressions 0 to 4 are `C<T>`, the name of the template, `x`, `true` and `C<T> && true`. -/
def constrainedTemplate : Graph :=
  let build : Build Unit := do
    let d ← Build.typeParam .globalName none
    let concept ← Build.conceptDecl .globalName [] none
    if let .ok t ← (Build.typenameType d).run then
      let x ← Build.objectParam .globalName t
      if let .ok f ← (Build.functionDecl .globalName [x] t).run then
        if let .ok c ← (Build.conceptCheck concept [.type t]).run then
          let template ← Build.templateDecl [d] f (some c)
          let _ ← (Build.templateReference template).run
          let _ ← (Build.synthesizedValue x).run
          let both ← Build.boolLiteral true
          let _ ← Build.binary .and .bool c both
  (build (.initial .empty 32)).2

theorem constrainedTemplate_reachable : constrainedTemplate.Reachable := by
  have hparam := (Reachable.initial .empty 32).operation (x := Build.typeParam .globalName none)
    (.typeParam rfl (by simp))
  have hconcept := hparam.operation (x := Build.conceptDecl .globalName [] none)
    (.conceptDecl rfl (by simp) (by simp))
  have htypename := hconcept.operation (x := (Build.typenameType ⟨1⟩).run) (.typenameType rfl)
  have hobject := htypename.operation (x := Build.objectParam .globalName ⟨3⟩)
    (.objectParam rfl rfl)
  have hfunction := hobject.operation (x := (Build.functionDecl .globalName [⟨3⟩] ⟨3⟩).run)
    (.functionDecl rfl (by simp; rfl) rfl)
  have hcheck := hfunction.operation (x := (Build.conceptCheck ⟨2⟩ [.type ⟨3⟩]).run)
    (.conceptCheck rfl (by simp; rfl))
  have htemplate := hcheck.operation (x := Build.templateDecl [⟨1⟩] ⟨4⟩ (some ⟨0⟩))
    (.templateDecl (by simp; rfl) rfl (by simp; rfl))
  have hname := htemplate.operation (x := (Build.templateReference ⟨5⟩).run)
    (.templateReference rfl)
  have hvalue := hname.operation (x := (Build.synthesizedValue ⟨3⟩).run) (.synthesizedValue rfl)
  have hliteral := hvalue.operation (x := Build.boolLiteral true) (.boolLiteral true)
  exact hliteral.operation (x := Build.binary .and .bool ⟨0⟩ ⟨3⟩) (.binary .and rfl rfl rfl)

theorem constrainedTemplate_wellFormed : constrainedTemplate.WellFormed :=
  constrainedTemplate_reachable.wellFormed

/-- Inside a template over `T` that requires `C<T>`. -/
def insideConstrained : Session Unit where
  graph := constrainedTemplate
  context := (Context.initial default .structural).pushTemplate [⟨1⟩] (some ⟨0⟩)
  client := ()

theorem insideConstrained_fits : insideConstrained.Fits where
  graph := constrainedTemplate_wellFormed
  context := (Context.Fits.initial default
    (Oracle.fits_structural constrainedTemplate_wellFormed)).pushTemplate
      constrainedTemplate_wellFormed [⟨1⟩] (by simp; rfl)

/-- Inside its own constraint the template can be called. -/
theorem insideConstrained_accepts : insideConstrained.Accepts ⟨1⟩ [⟨2⟩] ∧
    ¬ insideConstrained.ReportsUncovered ⟨1⟩ [⟨2⟩] :=
  (accepts_silently_iff insideConstrained_fits rfl rfl (by simp; rfl)).2 (by decide +kernel)

/-- Inside it stands another template, which requires `true`. -/
theorem nested_insideConstrained_fits : (insideConstrained.nested [⟨[], some ⟨3⟩⟩]).Fits where
  graph := insideConstrained_fits.graph
  context :=
    insideConstrained_fits.context.pushTemplates insideConstrained_fits.graph (by simp; rfl)

/-- A further template that requires `C<T> && true` retains what the call needs, and one that
requires `true` does not. -/
theorem nested_call_accepted_iff_both :
    insideConstrained.Fits ∧ insideConstrained.context.oracle = .structural ∧
    insideConstrained.graph.contains (⟨1⟩ : ExprHandle) = true ∧
    (∀ e ∈ [(⟨2⟩ : ExprHandle)], insideConstrained.graph.contains e = true) ∧
    (∀ e, e = (⟨3⟩ : ExprHandle) ∨ e = ⟨4⟩ → ∀ frame ∈ [(⟨[], some e⟩ : TemplateFrame)],
      ∀ x, frame.constraint = some x → insideConstrained.graph.contains x = true) ∧
    insideConstrained.Accepts ⟨1⟩ [⟨2⟩] ∧ ¬ insideConstrained.ReportsUncovered ⟨1⟩ [⟨2⟩] ∧
    ((insideConstrained.nested [⟨[], some ⟨4⟩⟩]).Accepts ⟨1⟩ [⟨2⟩] ∧
      ¬ (insideConstrained.nested [⟨[], some ⟨4⟩⟩]).ReportsUncovered ⟨1⟩ [⟨2⟩]) ∧
    ¬ Context.Retains insideConstrained.graph ⟨1⟩ [⟨2⟩] insideConstrained.context
      (insideConstrained.context.pushTemplates [⟨[], some ⟨3⟩⟩]) := by
  have ha : ∀ e ∈ [(⟨2⟩ : ExprHandle)], insideConstrained.graph.contains e = true := by
    simp
    rfl
  have hf : ∀ e, e = (⟨3⟩ : ExprHandle) ∨ e = ⟨4⟩ → ∀ frame ∈ [(⟨[], some e⟩ : TemplateFrame)],
      ∀ x, frame.constraint = some x → insideConstrained.graph.contains x = true := by
    rintro _ (rfl | rfl)
    all_goals
      simp
      rfl
  obtain ⟨haccepts, hsilent⟩ := insideConstrained_accepts
  refine ⟨insideConstrained_fits, rfl, rfl, ha, hf, haccepts, hsilent, ?_, fun hret => ?_⟩
  · refine (nested_call_accepted_iff insideConstrained_fits rfl rfl ha (hf ⟨4⟩ (.inr rfl)) haccepts
      hsilent).2 ?_
    exact .implied rfl rfl (by decide +kernel) (by decide +kernel)
  · refine ((nested_call_accepted_iff insideConstrained_fits rfl rfl ha (hf ⟨3⟩ (.inl rfl)) haccepts
      hsilent).2 hret).2 ?_
    exact (reportsUncovered_iff nested_insideConstrained_fits rfl rfl ha).2 (by decide +kernel)

/-- Inside another template, which requires `true`, the same call is reported. -/
theorem nested_call_uncovered :
    insideConstrained.Fits ∧ insideConstrained.context.oracle = .structural ∧
    insideConstrained.graph.contains (⟨1⟩ : ExprHandle) = true ∧
    insideConstrained.graph.contains (⟨2⟩ : ExprHandle) = true ∧
    insideConstrained.graph.contains (⟨3⟩ : ExprHandle) = true ∧
    insideConstrained.Accepts ⟨1⟩ [⟨2⟩] ∧ ¬ insideConstrained.ReportsUncovered ⟨1⟩ [⟨2⟩] ∧
    (insideConstrained.nested [⟨[], some ⟨3⟩⟩]).ReportsUncovered ⟨1⟩ [⟨2⟩] := by
  obtain ⟨haccepts, hsilent⟩ := insideConstrained_accepts
  refine ⟨insideConstrained_fits, rfl, rfl, rfl, rfl, haccepts, hsilent, ?_⟩
  exact (reportsUncovered_iff nested_insideConstrained_fits rfl rfl (by simp; rfl)).2
    (by decide +kernel)

end Session
end SemanticCore
