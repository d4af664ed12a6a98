import SemanticCore.Proofs.Action.Program

/-!
# The ways in which a call ends

Until the very end, resolving a call neither changes the context nor asks how strict it is, and at
no time does it look at the open scopes or at the client.  What it does at the end is one of three
things: it returns an expression, which inside a requires-expression may have become a requirement;
or it reports that the enclosing constraints do not cover the call, which is an error where the
context is strict and a diagnostic where it is not; or it fails.

`Action.Ending` says so of an action that resolves a call, and it says it of all sessions at once
that differ only in their `Surroundings`.  Neither the graph nor the context has to be well formed
for this, and the oracle may answer as it likes.

* `Action.call_ending` — a call ends in one of the three ways.
* `Action.call_effect` — **a call that fails leaves the context alone**, and one that is resolved
  requires one expression or reports one diagnostic, if anything.
-/

set_option autoImplicit false
namespace SemanticCore

variable {ρ σ α : Type}

/-- What resolving a call takes no notice of until its end: how strict the context is and what is
queued in it, what is in scope, and the client. -/
structure Surroundings (σ : Type) where
  strict : Bool
  queue : DiagnosticQueue
  scopes : List Scope
  bindings : List (NameHandle × DeclHandle)
  client : σ

/-- The session in other surroundings. -/
def Session.amid (s : Session ρ) (o : Surroundings σ) : Session σ where
  graph := s.graph
  context := { s.context with
    config := { s.context.config with strict := o.strict }
    diagnostics := o.queue
    scopes := o.scopes
    bindings := o.bindings }
  client := o.client

/-- The surroundings that the session has. -/
def Session.surroundings (s : Session ρ) : Surroundings ρ :=
  ⟨s.context.config.strict, s.context.diagnostics, s.context.scopes, s.context.bindings, s.client⟩

theorem Session.amid_surroundings (s : Session ρ) : s.amid s.surroundings = s :=
  rfl

/-- Record a call, with a placeholder for its type. -/
def Build.recordedCall (callee : ExprHandle) (args : List ExprHandle) : Build ExprHandle := do
  let t ← autoType
  call t callee args

namespace Context

/-- Nothing more is required, or the expression is, by the innermost requires-expression. -/
inductive Requires (e : ExprHandle) : List (List ExprHandle) → List (List ExprHandle) → Prop
  | none (frames : List (List ExprHandle)) : Requires e frames frames
  | one (required : List ExprHandle) (outer : List (List ExprHandle)) :
    Requires e (required :: outer) ((required ++ [e]) :: outer)

/-- The expression by which the constraint in force admits an expression, if there is one. -/
def admission (c : Context) (e : ExprHandle) : Build (Option ExprHandle) :=
  match c.currentConstraint? with
  | some constraints => c.oracle.admission? constraints e
  | none => pure none

/-- The graph in which a dependent call looks at its callee: the call is recorded, and the
constraint in force was asked for it. -/
def asked (c : Context) (g : Graph) (callee : ExprHandle) (args : List ExprHandle) : Graph :=
  ((Build.recordedCall callee args >>= c.admission) g).2

end Context

namespace Action

variable {s : Session ρ}

/-! ## Steps that take no notice -/

/-- The action leaves the context alone and does the same in all surroundings. -/
def Mute (s : Session ρ) (x : ∀ σ, Action σ α) : Prop :=
  ∃ r g, ∀ {σ : Type} (o : Surroundings σ),
    x σ (s.amid o) = (r, ({ s with graph := g } : Session ρ).amid o)

theorem Mute.attempt (s : Session ρ) (x : Attempt SemanticError α) :
    Mute s fun _ => attempt x := by
  refine ⟨(x s.graph).1.mapError .error, (x s.graph).2, fun {σ} o => ?_⟩
  have hrun : (Action.build x.run : Action σ _) (s.amid o) =
      (.ok (x s.graph).1, ({ s with graph := (x s.graph).2 } : Session ρ).amid o) := rfl
  refine (bind_of_ok hrun).trans ?_
  cases (x s.graph).1 <;> rfl

theorem admitted?_eq (e : ExprHandle) (s : Session ρ) :
    admitted? e s = (.ok (s.context.admission e s.graph).1,
      { s with graph := (s.context.admission e s.graph).2 }) := by
  rw [admitted?, context_bind, Context.admission]
  cases s.context.currentConstraint? <;> rfl

theorem Mute.isCovered (s : Session ρ) (required : ExprHandle) :
    Mute s fun _ => isCovered required := by
  cases hc : s.context.currentConstraint? with
  | none =>
    refine ⟨.ok false, s.graph, fun o => ?_⟩
    have hc' : (s.amid o).context.currentConstraint? = none := hc
    refine (context_bind _).trans ?_
    rw [hc']
    rfl
  | some ambient =>
    refine ⟨.ok (s.context.oracle.subsumes ambient required s.graph).1,
      (s.context.oracle.subsumes ambient required s.graph).2, fun o => ?_⟩
    have hc' : (s.amid o).context.currentConstraint? = some ambient := hc
    refine (context_bind _).trans ?_
    rw [hc']
    rfl

/-! ## Endings -/

variable {x : ∀ σ, Action σ α} {y z : ∀ σ, Action σ ExprHandle} {T : DeclHandle → Prop}

/-- How an action that resolves a call ends, whatever the surroundings.  A template that is reported
satisfies `T`. -/
inductive Ending (T : DeclHandle → Prop) (s : Session ρ) (y : ∀ σ, Action σ ExprHandle) : Prop
  /-- The call is resolved. -/
  | resolved {e : ExprHandle} {g : Graph} {frames : List (List ExprHandle)}
    (hframes : Context.Requires e s.context.requirements frames)
    (hy : ∀ {σ : Type} (o : Surroundings σ), y σ (s.amid o) = (.ok e,
      (({ s with graph := g } : Session ρ).enter ({ · with requirements := frames })).amid o))
  /-- The call is not covered, which is an error or is reported. -/
  | uncovered {template : DeclHandle} {e : ExprHandle} {g g' : Graph} {spelling : String}
    (htemplate : T template) (hout : s.context.requirements = [])
    (hy : ∀ {σ : Type} (o : Surroundings σ), y σ (s.amid o) =
      if o.strict then
        (.error (.error (.type (.uncoveredCall template))),
          ({ s with graph := g } : Session ρ).amid o)
      else
        (.ok e, ({ s with graph := g' } : Session ρ).amid
          { o with queue := (o.queue.add (uncoveredReport spelling s.context.location)).2 }))
  /-- The call cannot be resolved. -/
  | failed {e : Failure} {g : Graph} (hy : ∀ {σ : Type} (o : Surroundings σ), y σ (s.amid o) =
      (.error e, ({ s with graph := g } : Session ρ).amid o))

namespace Ending

/-- It is enough to know how the rest of an action ends, from where its first step leads. -/
theorem of_rest {g : Graph}
    (h : ∀ {σ : Type} (o : Surroundings σ),
      y σ (s.amid o) = z σ (({ s with graph := g } : Session ρ).amid o))
    (hz : Ending T { s with graph := g } z) : Ending T s y := by
  cases hz with
  | resolved hframes hz => exact .resolved hframes fun o => (h o).trans (hz o)
  | uncovered htemplate hout hz => exact .uncovered htemplate hout fun o => (h o).trans (hz o)
  | failed hz => exact .failed fun o => (h o).trans (hz o)

theorem pure (e : ExprHandle) : Ending T s fun _ => Pure.pure e :=
  .resolved (.none _) fun _ => rfl

theorem throw (e : Failure) : Ending T s fun _ => MonadExcept.throw e :=
  .failed fun _ => rfl

theorem build (x : Build ExprHandle) : Ending T s fun _ => Action.build x :=
  .resolved (.none _) fun _ => rfl

/-- After a first step that takes no notice, the rest of the action decides how it ends. -/
theorem bind {f : ∀ σ, α → Action σ ExprHandle} (hx : Mute s x)
    (hf : ∀ a g, Ending T { s with graph := g } fun σ => f σ a) :
    Ending T s fun σ => x σ >>= f σ := by
  obtain ⟨r, g, hx⟩ := hx
  cases r with
  | error e => exact .failed fun o => bind_of_error (hx o)
  | ok a => exact of_rest (fun o => bind_of_ok (hx o)) (hf a g)

theorem build_bind {x : Build α} {f : ∀ σ, α → Action σ ExprHandle}
    (h : Ending T { s with graph := (x s.graph).2 } fun σ => f σ (x s.graph).1) :
    Ending T s fun σ => Action.build x >>= f σ :=
  of_rest (fun _ => bind_of_ok rfl) h

theorem admitted?_bind {e : ExprHandle} {f : ∀ σ, Option ExprHandle → Action σ ExprHandle}
    (h : Ending T { s with graph := (s.context.admission e s.graph).2 } fun σ =>
      f σ (s.context.admission e s.graph).1) :
    Ending T s fun σ => Action.admitted? e >>= f σ :=
  of_rest (fun o => bind_of_ok (admitted?_eq e (s.amid o))) h

theorem graph_bind {f : ∀ σ, Graph → Action σ ExprHandle} (h : Ending T s fun σ => f σ s.graph) :
    Ending T s fun σ => Action.graph >>= f σ :=
  of_rest (z := fun σ => f σ s.graph) (fun _ => rfl) h

/-- The rest of the action may look at all of the context but the surroundings. -/
theorem context_bind {f : ∀ σ, Context → Action σ ExprHandle}
    (hf : ∀ {σ : Type} (o : Surroundings σ), f σ (s.amid o).context = f σ s.context)
    (h : Ending T s fun σ => f σ s.context) : Ending T s fun σ => Action.context >>= f σ :=
  of_rest (fun o => congrFun (hf o) _) h

theorem attempt (x : Attempt SemanticError ExprHandle) : Ending T s fun _ => Action.attempt x := by
  obtain ⟨r, g, hx⟩ := Mute.attempt s x
  cases r with
  | ok e => exact .resolved (.none _) hx
  | error e => exact .failed hx

/-- An expression that is required becomes the last of the innermost frame, unless it was required
before or there is no frame. -/
theorem require (e : ExprHandle) : Ending T s fun _ => Action.require e := by
  have hrun : ∀ {σ : Type} (o : Surroundings σ), Action.require e (s.amid o) =
      (.ok ((s.amid o).context.require s.graph e).1,
        (s.amid o).enter fun _ => ((s.amid o).context.require s.graph e).2) :=
    fun _ => rfl
  cases hframes : s.context.requirements with
  | nil =>
    refine .resolved (e := e) (g := s.graph) (.none _) fun o => ?_
    have hopen : (s.amid o).context.requirements = [] := hframes
    rw [hrun, Context.require, hopen]
    rfl
  | cons required outer =>
    cases hfound : required.find? fun x => s.graph.equivalent x e with
    | some x =>
      refine .resolved (e := x) (g := s.graph) (.none _) fun o => ?_
      have hopen : (s.amid o).context.requirements = required :: outer := hframes
      rw [hrun, Context.require, hopen]
      simp only [hfound]
      rfl
    | none =>
      have hone : Context.Requires e s.context.requirements ((required ++ [e]) :: outer) :=
        hframes ▸ .one required outer
      refine .resolved (g := s.graph) hone fun o => ?_
      have hopen : (s.amid o).context.requirements = required :: outer := hframes
      rw [hrun, Context.require, hopen]
      simp only [hfound]
      rfl

/-- A call that is not covered is resolved after the report, unless the report is an error. -/
theorem reportUncovered {template : DeclHandle} (htemplate : T template)
    (hout : s.context.requirements = []) (x : Build ExprHandle) :
    Ending T s fun _ => Action.reportUncovered template >>= fun _ => Action.build x := by
  have hrun : ∀ {σ : Type} (o : Surroundings σ),
      (Action.reportUncovered template >>= fun _ => Action.build x) (s.amid o) =
        if o.strict then (.error (.error (.type (.uncoveredCall template))), s.amid o)
        else (.ok (x s.graph).1, ({ s with graph := (x s.graph).2 } : Session ρ).amid
          { o with queue := (o.queue.add (uncoveredReport
            (s.graph.spelling (s.graph.decl template).name) s.context.location)).2 }) := by
    rintro σ ⟨_ | _, queue, scopes, bindings, client⟩
    · rfl
    · rfl
  exact .uncovered htemplate hout hrun

end Ending

/-! ## Calls -/

variable {callee : ExprHandle} {args : List ExprHandle}

theorem templateCall_ending {template : DeclHandle} (htemplate : T template)
    (hout : s.context.requirements = []) :
    Ending T s fun _ => templateCall callee template args := by
  refine .graph_bind ?_
  cases (s.graph.decl template).form with
  | template tparams pattern constraint =>
    refine .graph_bind ?_
    dsimp only
    cases (s.graph.decl pattern).form with
    | function t params definition =>
      refine .context_bind (fun _ => rfl) (.bind (.attempt s _) fun spec g => .graph_bind ?_)
      dsimp only
      cases (g.declaredType? spec).bind g.functionRet? with
      | none => exact .throw _
      | some ret =>
        cases constraint with
        | none => exact .build _
        | some required =>
          refine .bind (.isCovered _ required) fun covered g' => ?_
          cases covered with
          | true => exact .build (.call ret callee args)
          | false => exact .reportUncovered (s := { s with graph := g' }) htemplate hout _
    | _ => exact .throw _
  | _ => exact .throw _

/-- The template that is reported is the one that the callee names, once the constraint in force was
asked for the call. -/
theorem constrainedCall_ending {recorded : ExprHandle} (hout : s.context.requirements = []) :
    Ending (fun template => (Graph.expr (s.context.admission recorded s.graph).2 callee).form =
      .templateRef template) s fun _ => constrainedCall callee args recorded := by
  refine .admitted?_bind ?_
  cases (s.context.admission recorded s.graph).1 with
  | some e => exact .pure e
  | none =>
    refine .graph_bind ?_
    dsimp only
    cases hform : (Graph.expr (s.context.admission recorded s.graph).2 callee).form with
    | templateRef template => exact templateCall_ending rfl hout
    | reference d =>
      dsimp only
      cases Graph.isFunctionDecl (s.context.admission recorded s.graph).2 d with
      | true => exact .throw _
      | false => exact .throw _
    | _ => exact .throw _

theorem dependentCall_ending : Ending (fun template =>
    (Graph.expr (s.context.asked s.graph callee args) callee).form = .templateRef template) s
      fun _ => dependentCall callee args := by
  refine .build_bind (.build_bind (.context_bind (fun _ => rfl) ?_))
  dsimp only
  cases hopen : s.context.inRequirements with
  | true => exact .require _
  | false =>
    have hout : s.context.requirements = [] := by
      simpa [Context.inRequirements] using hopen
    cases s.context.inUnconstrainedTemplate with
    | true => exact .pure _
    | false =>
      exact constrainedCall_ending
        (s := { s with graph := (Build.recordedCall callee args s.graph).2 }) hout

/-- **A call ends in one of three ways**, and a template that it reports is the one that the callee
names. -/
theorem call_ending (s : Session ρ) (callee : ExprHandle) (args : List ExprHandle) :
    Ending (fun template => (Graph.expr (s.context.asked s.graph callee args) callee).form =
      .templateRef template) s fun _ => call callee args := by
  refine .graph_bind ?_
  cases s.graph.isTypeDependent callee || args.any s.graph.isTypeDependent with
  | true => exact dependentCall_ending
  | false => exact .attempt _

end Action

/-! ## The effect on the context -/

/-- What a call that is resolved to `e` may have done to the context. -/
inductive Context.CallEffect (c : Context) (e : ExprHandle) : Context → Prop
  /-- Nothing. -/
  | nothing : CallEffect c e c
  /-- Inside a requires-expression the call is required. -/
  | required {inner : List ExprHandle} {outer : List (List ExprHandle)}
    (hopen : c.requirements = inner :: outer) :
    CallEffect c e { c with requirements := (inner ++ [e]) :: outer }
  /-- Outside every requires-expression one warning is queued. -/
  | warned {d : Diagnostic} (hout : c.requirements = []) (hcode : d.code = .w2001)
    (hseverity : d.severity = .warning) :
    CallEffect c e { c with diagnostics := { c.diagnostics with
      diagnostics := c.diagnostics.diagnostics ++ [d]
      warningCount := c.diagnostics.warningCount + 1 } }

/-- The report of a call that is not covered is queued as a warning, or dropped. -/
theorem Context.CallEffect.of_report {c : Context} (hout : c.requirements = []) (e : ExprHandle)
    (spelling : String) : c.CallEffect e { c with
      diagnostics := (c.diagnostics.add (uncoveredReport spelling c.location)).2 } := by
  rw [DiagnosticQueue.add]
  split
  · exact .nothing
  · exact .warned hout rfl rfl

theorem Context.Requires.callEffect {c : Context} {e : ExprHandle} {frames : List (List ExprHandle)}
    (h : Context.Requires e c.requirements frames) :
    c.CallEffect e { c with requirements := frames } := by
  generalize hopen : c.requirements = outer at h
  cases h with
  | none => exact hopen ▸ .nothing
  | one required outer => exact .required hopen

/-- **A call that fails leaves the context alone.  A call that is resolved requires one expression,
or queues one warning, or does nothing to the context.** -/
theorem Action.call_effect (s : Session ρ) (callee : ExprHandle) (args : List ExprHandle) :
    match Action.call callee args s with
    | (.ok e, s') => s.context.CallEffect e s'.context
    | (.error _, s') => s'.context = s.context := by
  rw [← s.amid_surroundings]
  cases Action.call_ending s callee args with
  | resolved hframes hrun =>
    rw [hrun]
    exact hframes.callEffect
  | uncovered _ hout hrun =>
    rw [hrun]
    by_cases hstrict : s.surroundings.strict = true
    · rw [if_pos hstrict]
      exact rfl
    · rw [if_neg hstrict]
      exact .of_report hout _ _
  | failed hrun =>
    rw [hrun]
    exact rfl

end SemanticCore
