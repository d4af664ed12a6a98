import SemanticCore.Proofs.Action.Ending
import SemanticCore.Proofs.Action.Nesting

/-!
# Strict and lenient calls

A strict context differs from a lenient one in a single point: that the enclosing constraints do not
cover a call is an error there, and a warning here.  So the strict run of a call can be told from
the lenient one.

What a call reports cannot be read off its queue, which may drop a repetition.  `Session.reports`
are the diagnostics that it submits to the queue.

* `Context.ReachesTemplate` — when a call is resolved by resolving the template that it names.
* `Context.verdict_uncovered_iff` — which of these calls are not covered.
* `Session.follows_lenient` — **the strict call follows the lenient one**, and the warning comes
  exactly in those cases.
-/

set_option autoImplicit false
namespace SemanticCore

variable {ρ α : Type}

namespace Session

/-- The session, as strict as it is told to be. -/
def strictly (s : Session ρ) (strict : Bool) : Session ρ :=
  s.enter fun c => { c with config := { c.config with strict } }

/-- The diagnostics that an action submits to the queue. -/
def reports (s : Session ρ) (x : Action ρ α) : List Diagnostic :=
  (x s.heard).2.context.diagnostics.diagnostics

end Session

/-! ## Calls that are not covered -/

namespace Context

variable {c : Context} {g : Graph} {callee : ExprHandle} {args : List ExprHandle}

/-- The call is resolved by resolving the template that its callee names: it depends on template
parameters, is neither a requirement nor put off, and the constraint in force does not speak of
it. -/
structure ReachesTemplate (c : Context) (g : Graph) (callee : ExprHandle) (args : List ExprHandle)
    (template : DeclHandle) : Prop where
  dependent : g.isDependentCall callee args = true
  notRequired : c.inRequirements = false
  notPutOff : c.inUnconstrainedTemplate = false
  notAdmitted : c.admits g callee args = false
  callee : (g.expr callee).form = .templateRef template

theorem templateVerdict_uncovered_iff {template : DeclHandle} :
    c.templateVerdict g template args = .uncovered ↔
      g.deduces template args = true ∧ c.covers g template = false := by
  rw [templateVerdict]
  cases g.deduces template args <;> cases c.covers g template <;> simp

theorem constrainedVerdict_uncovered_iff : c.constrainedVerdict g callee args = .uncovered ↔
    c.admits g callee args = false ∧ ∃ template, (g.expr callee).form = .templateRef template ∧
      c.templateVerdict g template args = .uncovered := by
  rw [constrainedVerdict]
  cases c.admits g callee args with
  | true => simp
  | false =>
    cases (g.expr callee).form with
    | templateRef template => simp
    | _ => simp

theorem namedVerdict_ne_uncovered (g : Graph) (callee : ExprHandle) (args : List ExprHandle) :
    g.namedVerdict callee args ≠ .uncovered := by
  rw [Graph.namedVerdict]
  split
  · split <;> simp
  · simp

/-- A call is not covered if it gets as far as deducing the arguments of a template whose constraint
does not follow from the one in force. -/
theorem verdict_uncovered_iff : c.verdict g callee args = .uncovered ↔
    ∃ template, c.ReachesTemplate g callee args template ∧ g.deduces template args = true ∧
      c.covers g template = false := by
  constructor
  · intro h
    rw [verdict] at h
    split at h
    · next hdep =>
      split at h
      · cases h
      · next hopen =>
        rw [Bool.or_eq_true, not_or, Bool.not_eq_true, Bool.not_eq_true] at hopen
        obtain ⟨hadmits, template, hcallee, hv⟩ := constrainedVerdict_uncovered_iff.1 h
        exact ⟨template, ⟨hdep, hopen.1, hopen.2, hadmits, hcallee⟩,
          templateVerdict_uncovered_iff.1 hv⟩
    · exact absurd h (namedVerdict_ne_uncovered g callee args)
  · rintro ⟨template, h, hv⟩
    rw [verdict, if_pos h.dependent, h.notRequired, h.notPutOff, Bool.or_false,
      if_neg Bool.false_ne_true]
    exact constrainedVerdict_uncovered_iff.2
      ⟨h.notAdmitted, template, h.callee, templateVerdict_uncovered_iff.2 hv⟩

theorem covers_eq_false_iff {template : DeclHandle} : c.covers g template = false ↔
    ∃ required, g.templateConstraint? template = some required ∧
      ∀ ambient, c.currentConstraint? = some ambient →
        (Build.subsumes ambient required g).1 = false := by
  rw [covers]
  cases g.templateConstraint? template with
  | none => simp
  | some required =>
    cases c.currentConstraint? with
    | none => simp
    | some ambient => simp

/-- Whatever is recorded and asked, nothing happens to the nodes that were there before. -/
theorem extends_asked (ho : c.oracle = .structural) (g : Graph) (callee : ExprHandle)
    (args : List ExprHandle) : g.Extends (c.asked g callee args) := by
  have hframe := Graph.frame_extends
  refine Build.Within.bind hframe.toFrame ?_ (fun e => ?_) g
  · exact .bind hframe.toFrame (.autoType hframe.toFrame) fun t =>
      hframe.expr _ t
  · rw [admission, ho]
    split
    · exact .admission? hframe.toFrame _ e
    · exact .pure hframe.toFrame _

end Context

/-! ## Two runs of a call -/

/-- The strict and the lenient run of a call, side by side. -/
inductive Session.BothRuns (s : Session ρ) (callee : ExprHandle) (args : List ExprHandle) : Prop
  /-- They are the same run, and nothing is reported. -/
  | same (r : Except Failure ExprHandle) (s' : Session ρ)
    (hsilent : (s.strictly false).reports (Action.call callee args) = [])
    (hqueue : s'.context.diagnostics = s.context.diagnostics)
    (hrun : ∀ strict, Action.call callee args (s.strictly strict) = (r, s'.strictly strict))
  /-- One gives a warning, where the other fails. -/
  | warned {template : DeclHandle} {e : ExprHandle} {g g' : Graph} {d : Diagnostic}
    (htemplate : (Graph.expr (s.context.asked s.graph callee args) callee).form =
      .templateRef template)
    (hreports : (s.strictly false).reports (Action.call callee args) = [d])
    (hcode : d.code = .w2001) (hseverity : d.severity = .warning)
    (hlenient : Action.call callee args (s.strictly false) =
      (.ok e, (({ s with graph := g' } : Session ρ).enter (·.warn d)).strictly false))
    (hstrict : Action.call callee args (s.strictly true) =
      (.error (.error (.type (.uncoveredCall template))), { s.strictly true with graph := g }))

theorem Session.bothRuns (s : Session ρ) (callee : ExprHandle) (args : List ExprHandle) :
    s.BothRuns callee args := by
  have hstrictly (strict : Bool) : s.strictly strict = s.amid { s.surroundings with strict } := rfl
  have hreports : (s.strictly false).reports (Action.call callee args) = (Action.call callee args
      (s.amid { s.surroundings with strict := false, queue := .empty .unlimited })
      ).2.context.diagnostics.diagnostics := rfl
  cases Action.call_ending s callee args with
  | @resolved e g frames _ hrun =>
    rw [hrun] at hreports
    exact .same (.ok e)
      (({ s with graph := g } : Session ρ).enter ({ · with requirements := frames })) hreports rfl
      fun strict => hrun { s.surroundings with strict }
  | uncovered htemplate _ hrun =>
    rw [hrun, if_neg Bool.false_ne_true] at hreports
    exact .warned htemplate hreports rfl rfl (hrun { s.surroundings with strict := false })
      (hrun { s.surroundings with strict := true })
  | @failed e g hrun =>
    rw [hrun] at hreports
    exact .same (.error e) { s with graph := g } hreports rfl
      fun strict => hrun { s.surroundings with strict }

/-- The strict run of a call, compared with the lenient run. -/
structure Session.FollowsLenient (s : Session ρ) (callee : ExprHandle) (args : List ExprHandle) :
    Prop where
  /-- The lenient call queues what it reports. -/
  queue : (Action.call callee args (s.strictly false)).2.context.diagnostics =
    ((s.strictly false).reports (Action.call callee args)).foldl (fun q d => (q.add d).2)
      s.context.diagnostics
  /-- Unless it reports nothing it gives one warning. -/
  reported : (s.strictly false).reports (Action.call callee args) = [] ∨
    ∃ d, (s.strictly false).reports (Action.call callee args) = [d] ∧ d.code = .w2001 ∧
      d.severity = .warning
  /-- If the lenient call is resolved without a report, the strict call does the same. -/
  silent {e : ExprHandle} {s' : Session ρ}
    (hrun : Action.call callee args (s.strictly false) = (.ok e, s'))
    (hsilent : (s.strictly false).reports (Action.call callee args) = []) :
    Action.call callee args (s.strictly true) = (.ok e, s'.strictly true)
  /-- If the lenient call is resolved with a warning, the strict call fails because the template is
  not covered, and leaves its context alone. -/
  warned {e : ExprHandle} {s' : Session ρ} {d : Diagnostic}
    (hrun : Action.call callee args (s.strictly false) = (.ok e, s'))
    (hd : d ∈ (s.strictly false).reports (Action.call callee args)) :
    ∃ template g, (s.graph.expr callee).form = .templateRef template ∧
      Action.call callee args (s.strictly true) =
        (.error (.error (.type (.uncoveredCall template))), { s.strictly true with graph := g })
  /-- If the lenient call fails, the strict call fails in the same way. -/
  failed {e : Failure} {s' : Session ρ}
    (hrun : Action.call callee args (s.strictly false) = (.error e, s')) :
    Action.call callee args (s.strictly true) = (.error e, s'.strictly true)
  /-- The warning says that the call gets as far as deducing the arguments of a template with a
  constraint, and that there is no constraint in force that subsumes it. -/
  warns_iff (hs : s.Fits) (ha : ∀ e ∈ args, s.graph.contains e = true) :
    (∃ d ∈ (s.strictly false).reports (Action.call callee args), d.code = .w2001) ↔
      ∃ template required, s.context.ReachesTemplate s.graph callee args template ∧
        s.graph.deduces template args = true ∧
        s.graph.templateConstraint? template = some required ∧
        ∀ ambient, s.context.currentConstraint? = some ambient →
          (Build.subsumes ambient required s.graph).1 = false

namespace Session

variable {s : Session ρ} {callee : ExprHandle} {args : List ExprHandle}

theorem Fits.strictly (hs : s.Fits) (strict : Bool) : (s.strictly strict).Fits where
  graph := hs.graph
  context := ⟨hs.context.owners, hs.context.constraints, hs.context.oracle⟩

/-- The lenient call gives the warning if it is not covered. -/
theorem warns_iff_verdict (hs : s.Fits) (ho : s.context.oracle = .structural)
    (hc : s.graph.contains callee = true) (ha : ∀ e ∈ args, s.graph.contains e = true) :
    (∃ d ∈ (s.strictly false).reports (Action.call callee args), d.code = .w2001) ↔
      s.context.verdict s.graph callee args = .uncovered := by
  have hends : Action.Ends (s.strictly false).heard (Action.call callee args)
      (s.context.verdict s.graph callee args) :=
    Action.call_ends (hs.strictly false).heard ho hc ha
  have hempty : (s.strictly false).heard.context.diagnostics.diagnostics = [] := rfl
  rw [reports]
  cases hv : s.context.verdict s.graph callee args with
  | accepted =>
    rw [hv] at hends
    simp [hends.2, hempty]
  | uncovered =>
    rw [hv, Action.Ends, if_neg (show ¬ (s.strictly false).heard.context.config.strict = true from
      Bool.false_ne_true)] at hends
    obtain ⟨-, spelling, hdiag⟩ := hends
    refine iff_of_true ⟨uncoveredReport spelling s.context.location, ?_, rfl⟩ rfl
    rw [hdiag]
    exact List.mem_cons_self
  | refused =>
    rw [hv] at hends
    simp [hends.2, hempty]

/-- **The strict run of a call follows the lenient one.**  It differs from it exactly where that one
gives a warning, and is an error there. -/
theorem follows_lenient (ho : s.context.oracle = .structural)
    (hc : s.graph.contains callee = true) : s.FollowsLenient callee args where
  queue := by
    cases s.bothRuns callee args with
    | same _ _ hsilent hqueue hrun => rw [hrun, hsilent]; exact hqueue
    | warned _ hreports _ _ hlenient _ => rw [hlenient, hreports]; rfl
  reported := by
    cases s.bothRuns callee args with
    | same _ _ hsilent _ _ => exact .inl hsilent
    | warned _ hreports hcode hseverity _ _ => exact .inr ⟨_, hreports, hcode, hseverity⟩
  silent hrun hsilent := by
    cases s.bothRuns callee args with
    | same _ _ _ _ hrun' =>
      rw [hrun'] at hrun ⊢
      obtain ⟨rfl, rfl⟩ := Prod.mk.inj hrun
      rfl
    | warned _ hreports _ _ _ _ => simp [hreports] at hsilent
  warned hrun hd := by
    cases s.bothRuns callee args with
    | same _ _ hsilent _ _ => simp [hsilent] at hd
    | @warned template _ g _ _ htemplate _ _ _ _ hstrict =>
      refine ⟨template, g, ?_, hstrict⟩
      rw [← htemplate, (Context.extends_asked ho s.graph callee args).expr hc]
  failed hrun := by
    cases s.bothRuns callee args with
    | same _ _ _ _ hrun' =>
      rw [hrun'] at hrun ⊢
      obtain ⟨rfl, rfl⟩ := Prod.mk.inj hrun
      rfl
    | warned _ _ _ _ hlenient _ =>
      rw [hlenient] at hrun
      cases hrun
  warns_iff hs ha := by
    rw [warns_iff_verdict hs ho hc ha, Context.verdict_uncovered_iff]
    simp only [Context.covers_eq_false_iff, exists_and_left]

/-- Inside a template that requires nothing but `true`, the call of a template that requires `C<T>`
gives the warning. -/
theorem follows_lenient_nested :
    (insideConstrained.nested [⟨[], some ⟨3⟩⟩]).context.oracle = .structural ∧
    (insideConstrained.nested [⟨[], some ⟨3⟩⟩]).graph.contains (⟨1⟩ : ExprHandle) = true ∧
    (insideConstrained.nested [⟨[], some ⟨3⟩⟩]).FollowsLenient ⟨1⟩ [⟨2⟩] ∧
    ∃ d ∈ ((insideConstrained.nested [⟨[], some ⟨3⟩⟩]).strictly false).reports
      (Action.call ⟨1⟩ [⟨2⟩]), d.code = .w2001 :=
  ⟨rfl, rfl, follows_lenient rfl rfl,
    (warns_iff_verdict nested_insideConstrained_fits rfl rfl (by simp; rfl)).2 (by decide +kernel)⟩

end Session
end SemanticCore
