import SemanticCore.Proofs.Action.Ending
import SemanticCore.Proofs.Action.Typing
import SemanticCore.Proofs.Constraint.Subsumption
import SemanticCore.Proofs.Template.Defaults

/-!
# What becomes of a call

With the oracle that answers by structure, what becomes of a call can be told from the graph and the
context that it is made in: it is resolved without a word, or it is reported because the enclosing
constraints do not cover it, or it cannot be resolved.  `Context.verdict` says which.  Unlike
`Action.call` it only looks: it asks every question of the graph as it was before the call.

* `Action.call_ends` — **a call ends as its verdict says.**
* `Session.accepts_iff`, `Session.reportsUncovered_iff` — what a caller sees of the verdict.

The answers to the questions stay as they are when the graph grows, which is why the call, which
adds to the graph while it asks, gets the same ones.
-/

set_option autoImplicit false
namespace SemanticCore

open SemanticCore.Graph

/-- What becomes of a call. -/
inductive Verdict where
  /-- It is resolved without a report. -/
  | accepted
  /-- The enclosing constraints do not cover it, and that is reported. -/
  | uncovered
  /-- It cannot be resolved. -/
  | refused
deriving DecidableEq, Inhabited

/-! ## The questions -/

namespace Graph

variable (g : Graph)

/-- The call depends on template parameters. -/
def isDependentCall (callee : ExprHandle) (args : List ExprHandle) : Bool :=
  g.isTypeDependent callee || args.any g.isTypeDependent

/-- The constraints speak of the call, once it is recorded. -/
def admitsCall (constraints callee : ExprHandle) (args : List ExprHandle) : Bool :=
  ((Build.recordedCall callee args >>= Build.admission? constraints) g).1.isSome

/-- The template parameters and the function parameters of a function template. -/
def functionTemplate? (template : DeclHandle) : Option (List DeclHandle × List DeclHandle) :=
  match (g.decl template).form with
  | .template tparams pattern _ =>
    match (g.decl pattern).form with
    | .function _ params _ => some (tparams, params)
    | _ => none
  | _ => none

/-- The declaration is a function template whose arguments are deduced for the call. -/
def deduces (template : DeclHandle) (args : List ExprHandle) : Bool :=
  (g.functionTemplate? template).any fun (tparams, params) =>
    (Build.deduce tparams params args g).1.isOk

/-- The verdict on a call that does not depend on template parameters. -/
def namedVerdict (callee : ExprHandle) (args : List ExprHandle) : Verdict :=
  match g.namedFunction? callee with
  | some (expected, _) => if expected = args.length then .accepted else .refused
  | none => .refused

end Graph

namespace Context

variable (c : Context) (g : Graph)

/-- The constraint in force speaks of the call. -/
def admits (callee : ExprHandle) (args : List ExprHandle) : Bool :=
  c.currentConstraint?.any fun constraints => g.admitsCall constraints callee args

/-- The constraint of the template, if it has one, follows from the one in force. -/
def covers (template : DeclHandle) : Bool :=
  (g.templateConstraint? template).all fun required =>
    c.currentConstraint?.any fun ambient => (Build.subsumes ambient required g).1

/-- The verdict on a call of a template. -/
def templateVerdict (template : DeclHandle) (args : List ExprHandle) : Verdict :=
  if g.deduces template args then
    if c.covers g template then .accepted else .uncovered
  else
    .refused

/-- The verdict on a dependent call that is not put off. -/
def constrainedVerdict (callee : ExprHandle) (args : List ExprHandle) : Verdict :=
  if c.admits g callee args then .accepted
  else
    match (g.expr callee).form with
    | .templateRef template => c.templateVerdict g template args
    | _ => .refused

/-- The verdict on a call. -/
def verdict (callee : ExprHandle) (args : List ExprHandle) : Verdict :=
  if g.isDependentCall callee args then
    if c.inRequirements || c.inUnconstrainedTemplate then .accepted
    else c.constrainedVerdict g callee args
  else
    g.namedVerdict callee args

end Context

/-! ## The answers stay as they are -/

theorem Attempt.isOk_iff {ε α : Type} {x : Attempt ε α} {g : Graph} :
    (x g).1.isOk = true ↔ ∃ a g', x g = (.ok a, g') := by
  rcases x g with ⟨e | a, g'⟩
  · exact iff_of_false Bool.false_ne_true (by rintro ⟨_, _, ⟨⟩⟩)
  · exact iff_of_true rfl ⟨a, g', rfl⟩

namespace Graph

variable {g g' : Graph}

/-- What a declaration is a template of does not change. -/
theorem WellFormed.functionTemplate?_extend (hg : g.WellFormed) (h : g.Extends g')
    {template : DeclHandle} (hd : g.contains template = true) :
    g'.functionTemplate? template = g.functionTemplate? template := by
  have hform := (h.decl hd).form
  rw [functionTemplate?, functionTemplate?]
  cases hf : (g.decl template).form with
  | template tparams pattern constraint =>
    have hpattern := (h.decl (hg.contains_template hf).2.1).form
    rw [h.template hf]
    dsimp only
    generalize (g.decl pattern).form = f, (g'.decl pattern).form = f' at hpattern ⊢
    cases hpattern <;> rfl
  | _ =>
    rw [hf] at hform
    generalize (g'.decl template).form = f' at hform ⊢
    cases hform <;> rfl

theorem Extends.templateConstraint? (h : g.Extends g') {template : DeclHandle}
    (hd : g.contains template = true) :
    g'.templateConstraint? template = g.templateConstraint? template := by
  have hform := (h.decl hd).form
  unfold Graph.templateConstraint?
  generalize (g.decl template).form = f, (g'.decl template).form = f' at hform ⊢
  cases hform <;> rfl

theorem functionTemplate?_eq_some {template : DeclHandle} {tparams params : List DeclHandle} :
    g.functionTemplate? template = some (tparams, params) ↔ ∃ pattern constraint t defn,
      (g.decl template).form = .template tparams pattern constraint ∧
        (g.decl pattern).form = .function t params defn := by
  rw [functionTemplate?]
  constructor
  · intro h
    split at h
    · next pattern constraint hf =>
      split at h
      · next t _ defn hf' =>
        cases h
        exact ⟨pattern, constraint, t, defn, hf, hf'⟩
      · cases h
    · cases h
  · rintro ⟨pattern, constraint, t, defn, hf, hf'⟩
    simp only [hf, hf']

theorem WellFormed.contains_functionTemplate? (hg : g.WellFormed) {template : DeclHandle}
    {tparams params : List DeclHandle} (h : g.functionTemplate? template = some (tparams, params)) :
    (∀ d ∈ tparams, g.contains d = true) ∧ ∀ d ∈ params, g.contains d = true := by
  obtain ⟨pattern, constraint, t, defn, hf, hf'⟩ := functionTemplate?_eq_some.1 h
  exact ⟨(hg.contains_template hf).1, hg.contains_functionParams hf'⟩

theorem WellFormed.contains_templateConstraint? (hg : g.WellFormed) {template : DeclHandle}
    {e : ExprHandle} (h : g.templateConstraint? template = some e) : g.contains e = true := by
  rw [templateConstraint?] at h
  split at h
  · next hf => exact (hg.contains_template hf).2.2 e h
  · cases h

/-- Whether deduction succeeds stays as it is when the graph grows. -/
theorem WellFormed.isOk_deduce_extend (hg : g.WellFormed) (hgrow : g.Grows g')
    {tparams params : List DeclHandle} {args : List ExprHandle}
    (ht : ∀ d ∈ tparams, g.contains d = true) (hp : ∀ d ∈ params, g.contains d = true)
    (ha : ∀ e ∈ args, g.contains e = true) :
    (Build.deduce tparams params args g').1.isOk = (Build.deduce tparams params args g).1.isOk := by
  by_cases hlen : params.length = args.length
  · rw [Build.deduce_eq _ _ _ hlen, Build.deduce_eq _ _ _ hlen,
      hg.matchArgs_extend hgrow.extends hp ha]
    cases hm : g.matchArgs params args (.ofParams tparams) with
    | error e => rfl
    | ok s =>
      have hfits := ((hg.matches_matchArgs tparams (objectParam_of_matchArgs hlen hm) ha).typed rfl
        (typed_ofParams g tparams) hm).fits
      have hext := hgrow.extends
      have hdefault : (∀ d ∈ tparams, s.isBound d = true ∨ ∃ t, g'.typeDefault? d = some t) ↔
          ∀ d ∈ tparams, s.isBound d = true ∨ ∃ t, g.typeDefault? d = some t :=
        forall₂_congr fun d hd => by rw [hext.typeDefault? (ht d hd)]
      rw [Bool.eq_iff_iff, Attempt.isOk_iff, Attempt.isOk_iff, hg.fillDefaults_iff tparams hfits ht]
      refine Iff.trans ?_ hdefault
      exact (hgrow.wellFormed hg).fillDefaults_iff tparams (hfits.extend hext)
        fun d hd => hext.contains (ht d hd)
  · rw [Build.deduce_of_length_ne _ _ _ hlen, Build.deduce_of_length_ne _ _ _ hlen]

theorem WellFormed.deduces_extend (hg : g.WellFormed) (hgrow : g.Grows g') {template : DeclHandle}
    (hd : g.contains template = true) {args : List ExprHandle}
    (ha : ∀ e ∈ args, g.contains e = true) :
    g'.deduces template args = g.deduces template args := by
  rw [deduces, deduces, hg.functionTemplate?_extend hgrow.extends hd]
  cases hf : g.functionTemplate? template with
  | none => rfl
  | some p =>
    obtain ⟨htparams, hparams⟩ := hg.contains_functionTemplate? hf
    exact hg.isOk_deduce_extend hgrow htparams hparams ha

end Graph

/-- A template is covered if its constraint, should it have one, follows from the one in force. -/
theorem Context.Fits.covers_iff {c : Context} {g : Graph} (hc : c.Fits g) (hg : g.WellFormed)
    {template : DeclHandle} : c.covers g template = true ↔
      ∀ required, g.templateConstraint? template = some required →
        ∃ ambient, c.currentConstraint? = some ambient ∧ g.Entails ambient required := by
  rw [covers]
  cases hr : g.templateConstraint? template with
  | none => simp
  | some required =>
    have hrequired := hg.contains_templateConstraint? hr
    cases ha : c.currentConstraint? with
    | none => simp
    | some ambient => simp [hg.subsumes_iff (hc.currentConstraint? ha) hrequired]

/-- Whether the constraint in force covers a template stays as it is. -/
theorem Context.Fits.covers_extend {c : Context} {g g' : Graph} (hc : c.Fits g) (hg : g.WellFormed)
    (hgrow : g.Grows g') {template : DeclHandle} (hd : g.contains template = true) :
    c.covers g' template = c.covers g template := by
  rw [covers, covers, hgrow.extends.templateConstraint? hd]
  cases hr : g.templateConstraint? template with
  | none => rfl
  | some required =>
    cases ha : c.currentConstraint? with
    | none => rfl
    | some ambient =>
      exact hg.subsumes_eq (hgrow.wellFormed hg) (.inl hgrow.extends) (hc.currentConstraint? ha)
        (hg.contains_templateConstraint? hr)

theorem Context.Fits.templateVerdict_extend {c : Context} {g g' : Graph} (hc : c.Fits g)
    (hg : g.WellFormed) (hgrow : g.Grows g') {template : DeclHandle}
    (hd : g.contains template = true) {args : List ExprHandle}
    (ha : ∀ e ∈ args, g.contains e = true) :
    c.templateVerdict g' template args = c.templateVerdict g template args := by
  rw [templateVerdict, templateVerdict, hg.deduces_extend hgrow hd ha, hc.covers_extend hg hgrow hd]

/-! ## Resolving a template -/

/-- What a template parameterizes is known by its parameters and its return type. -/
theorem Graph.WellFormed.functionPattern?_eq {g : Graph} (hg : g.WellFormed)
    {template pattern : DeclHandle} {tparams params : List DeclHandle}
    {constraint : Option ExprHandle} {t : TypeHandle} {defn : Option DefHandle}
    (htemplate : (g.decl template).form = .template tparams pattern constraint)
    (hpattern : (g.decl pattern).form = .function t params defn) :
    ∃ ret, g.functionPattern? template = some (params, ret) := by
  obtain ⟨ts, ret, ht, -⟩ := hg.function_type hpattern
  refine ⟨ret, ?_⟩
  rw [functionPattern?, htemplate]
  dsimp only
  rw [hpattern]
  simp only [functionRet?, ht, Option.map_some]

namespace Oracle

variable {g : Graph} {template : DeclHandle} {tparams params : List DeclHandle}
  {args : List ExprHandle}

/-- A function template whose arguments are deduced is resolved: specializing it to them succeeds,
and gives a function. -/
theorem resolve_of_deduced (hg : g.WellFormed) {ret : TypeHandle}
    (hpattern : g.functionPattern? template = some (params, ret))
    (ha : ∀ e ∈ args, g.contains e = true)
    (h : (Build.deduce tparams params args g).1.isOk = true) :
    ∃ spec g' r, structural.resolve template tparams params args g = (.ok spec, g') ∧
      g.Grows g' ∧ (g'.declaredType? spec).bind g'.functionRet? = some r := by
  obtain ⟨σ, g₁, hdeduce⟩ := Attempt.isOk_iff.1 h
  have hyield := hg.yields_deduce tparams params ha
  rw [Attempt.Yields, Build.Yields, hdeduce] at hyield
  obtain ⟨hgrow, hfits⟩ := hyield
  have hbound : ∀ d ∈ σ.params, σ.isBound d = true := by
    rw [(hg.typed_deduce ha hdeduce).2]
    exact (hg.deduce_solution ha hdeduce).1
  obtain ⟨spec, g₂, hspecialize, hgrow₂, _, _, fn, _, _, r, -, hform, hr, -⟩ :=
    Attempt.Succeeds.specialize (hgrow.wellFormed hg) (hfits σ rfl) hbound
      (hgrow.extends.functionPattern? hpattern)
  refine ⟨spec, g₂, r, ?_, hgrow.trans hgrow₂, by rw [declaredType?, hform]; exact hr⟩
  exact (Attempt.bind_of_ok (Attempt.adapt_of_ok hdeduce _)).trans
    (Attempt.adapt_of_ok hspecialize _)

theorem resolve_of_not_deduced (template : DeclHandle)
    (h : ¬ (Build.deduce tparams params args g).1.isOk = true) :
    ∃ e g', structural.resolve template tparams params args g = (.error e, g') := by
  rcases hdeduce : Build.deduce tparams params args g with ⟨e | σ, g₁⟩
  · exact ⟨_, _, Attempt.bind_of_error (Attempt.adapt_of_error hdeduce _)⟩
  · exact absurd (Attempt.isOk_iff.2 ⟨σ, g₁, hdeduce⟩) h

end Oracle

/-! ## How an action ends -/

/-- The failure says that a call is not covered. -/
def Failure.isUncovered : Failure → Bool
  | error (.type (.uncoveredCall _)) => true
  | _ => false

/-- The verdict that a call is not covered is an error if the context is strict, and otherwise a
report. -/
def Action.Ends {ρ α : Type} (s : Session ρ) (x : Action ρ α) : Verdict → Prop
  | .accepted =>
    (∃ a, (x s).1 = .ok a) ∧ (x s).2.context.diagnostics = s.context.diagnostics
  | .uncovered =>
    if s.context.config.strict then
      (∃ e, (x s).1 = .error e ∧ e.isUncovered = true) ∧
        (x s).2.context.diagnostics = s.context.diagnostics
    else
      (∃ a, (x s).1 = .ok a) ∧ ∃ spelling, (x s).2.context.diagnostics =
        (s.context.diagnostics.add (uncoveredReport spelling s.context.location)).2
  | .refused =>
    (∃ e, (x s).1 = .error e ∧ e.isUncovered = false) ∧
      (x s).2.context.diagnostics = s.context.diagnostics

namespace Action

variable {ρ α β : Type} {s s' : Session ρ} {x : Action ρ α} {f : α → Action ρ β} {v : Verdict}

namespace Ends

theorem pure (a : α) : Ends s (Pure.pure a : Action ρ α) .accepted :=
  ⟨⟨a, rfl⟩, rfl⟩

theorem throw {e : Failure} (he : e.isUncovered = false) :
    Ends s (MonadExcept.throw e : Action ρ α) .refused :=
  ⟨⟨e, rfl, he⟩, rfl⟩

/-- A first step that succeeds and leaves the context alone changes nothing about the end. -/
theorem bind {a : α} (hx : x s = (.ok a, s')) (hc : s'.context = s.context)
    (hf : Ends s' (f a) v) : Ends s (x >>= f) v := by
  unfold Ends at hf ⊢
  rwa [bind_of_ok hx, ← hc]

theorem bind_error {e : Failure} (hx : x s = (.error e, s')) (hc : s'.context = s.context)
    (he : e.isUncovered = false) : Ends s (x >>= f) .refused := by
  rw [Ends, bind_of_error hx]
  exact ⟨⟨e, rfl, he⟩, by rw [hc]⟩

theorem graph_bind {f : Graph → Action ρ β} (h : Ends s (f s.graph) v) :
    Ends s (Action.graph >>= f) v :=
  h

theorem context_bind {f : Context → Action ρ β} (h : Ends s (f s.context) v) :
    Ends s (Action.context >>= f) v :=
  h

theorem build (x : Build α) : Ends s (Action.build x : Action ρ α) .accepted :=
  ⟨⟨(x s.graph).1, rfl⟩, rfl⟩

theorem build_bind {x : Build α}
    (h : Ends { s with graph := (x s.graph).2 } (f (x s.graph).1) v) :
    Ends s (Action.build x >>= f) v :=
  bind (x := Action.build x) rfl rfl h

theorem require (e : ExprHandle) : Ends s (Action.require e) .accepted := by
  refine ⟨⟨_, rfl⟩, ?_⟩
  change (s.context.require s.graph e).2.diagnostics = _
  rw [Context.require]
  split
  · rfl
  · split <;> rfl

theorem attempt_ok {x : Attempt SemanticError α} {a : α} {g : Graph}
    (h : x s.graph = (.ok a, g)) : Ends s (Action.attempt x) .accepted := by
  rw [Ends, attempt_of_ok h]
  exact ⟨⟨a, rfl⟩, rfl⟩

theorem attempt_error {x : Attempt SemanticError α} {e : SemanticError} {g : Graph}
    (h : x s.graph = (.error e, g)) (he : (Failure.error e).isUncovered = false) :
    Ends s (Action.attempt x) .refused := by
  rw [Ends, attempt_of_error h]
  exact ⟨⟨_, rfl, he⟩, rfl⟩

end Ends

/-! ## Calls -/

/-- Whether the constraint in force covers a template is found out at the price of new constraint
nodes. -/
theorem isCovered_run (hs : s.Fits) (ho : s.context.oracle = .structural) {template : DeclHandle}
    {required : ExprHandle} (hr : s.graph.templateConstraint? template = some required) :
    ∃ g, s.graph.Grows g ∧ isCovered required s =
      (.ok (s.context.covers s.graph template), { s with graph := g }) := by
  rw [Context.covers, hr, isCovered, Action.context_bind, ho]
  cases ha : s.context.currentConstraint? with
  | none => exact ⟨s.graph, .refl _, rfl⟩
  | some ambient =>
    refine ⟨(Build.subsumes ambient required s.graph).2, ?_, rfl⟩
    exact (Build.Yields.subsumes hs.graph (hs.context.currentConstraint? ha)
      (hs.graph.contains_templateConstraint? hr)).1

/-- A call that is not covered is reported, and resolved unless the context is strict. -/
theorem reportUncovered_ends (template : DeclHandle) (x : Build α) :
    Ends s (reportUncovered template >>= fun _ => build x) .uncovered := by
  by_cases hstrict : s.context.config.strict = true
  · have hrun : reportUncovered template s =
        (.error (.error (.type (.uncoveredCall template))), s) := by
      rw [reportUncovered, Action.context_bind, if_pos hstrict]
      rfl
    rw [Ends, if_pos hstrict, bind_of_error hrun]
    exact ⟨⟨_, rfl, rfl⟩, rfl⟩
  · have hrun : reportUncovered template s = (.ok (), s.enter fun c =>
        c.warn (uncoveredReport (s.graph.spelling (s.graph.decl template).name) c.location)) := by
      rw [reportUncovered, Action.context_bind, if_neg hstrict]
      rfl
    rw [Ends, if_neg hstrict, bind_of_ok hrun]
    exact ⟨⟨_, rfl⟩, _, rfl⟩

/-- The call of a template ends as its verdict says. -/
theorem templateCall_ends (hs : s.Fits) (ho : s.context.oracle = .structural) {callee : ExprHandle}
    {template : DeclHandle} {args : List ExprHandle} (hd : s.graph.contains template = true)
    (ha : ∀ e ∈ args, s.graph.contains e = true) :
    Ends s (templateCall callee template args)
      (s.context.templateVerdict s.graph template args) := by
  cases hf : s.graph.functionTemplate? template with
  | none =>
    have hv : s.context.templateVerdict s.graph template args = .refused := by
      rw [Context.templateVerdict, deduces, hf]
      rfl
    rw [hv]
    refine .graph_bind ?_
    split
    · next htemplate =>
      refine .graph_bind ?_
      split
      · next hpattern =>
        rw [functionTemplate?_eq_some.2 ⟨_, _, _, _, htemplate, hpattern⟩] at hf
        cases hf
      · exact .throw rfl
    · exact .throw rfl
  | some p =>
    obtain ⟨tparams, params⟩ := p
    obtain ⟨pattern, constraint, t, defn, htemplate, hpattern⟩ := functionTemplate?_eq_some.1 hf
    rw [Context.templateVerdict, deduces, hf]
    refine .graph_bind ?_
    rw [htemplate]
    refine .graph_bind ?_
    rw [hpattern]
    refine .context_bind ?_
    rw [ho]
    by_cases hok : (Build.deduce tparams params args s.graph).1.isOk = true
    · obtain ⟨_, hret⟩ := hs.graph.functionPattern?_eq htemplate hpattern
      obtain ⟨spec, g, ret, hresolve, hgrow, hret⟩ :=
        Oracle.resolve_of_deduced hs.graph hret ha hok
      have hs' : Session.Fits { s with graph := g } :=
        ⟨hgrow.wellFormed hs.graph, hs.context.extend hgrow⟩
      have hr : g.templateConstraint? template = constraint := by
        rw [templateConstraint?, hgrow.extends.template htemplate]
      rw [Option.any_some, if_pos hok, ← hs.context.covers_extend hs.graph hgrow hd]
      refine .bind (attempt_of_ok (Attempt.adapt_of_ok hresolve _)) rfl (.graph_bind ?_)
      simp only [hret]
      cases constraint with
      | none =>
        rw [Context.covers, hr]
        exact .build _
      | some required =>
        obtain ⟨g', -, hcovered⟩ := isCovered_run hs' ho hr
        refine .bind hcovered rfl ?_
        by_cases hcov : s.context.covers g template = true
        · rw [hcov, if_pos rfl, if_neg (by simp)]
          exact .build _
        · rw [if_neg hcov, if_pos (by simpa using hcov)]
          exact reportUncovered_ends template _
    · rw [Option.any_some, if_neg hok]
      obtain ⟨e, g, hresolve⟩ := Oracle.resolve_of_not_deduced template hok
      exact .bind_error (attempt_of_error (Attempt.adapt_of_error hresolve _)) rfl rfl

/-- Recording a call only adds to the graph. -/
theorem Build.Yields.recordedCall {g : Graph} (hg : g.WellFormed) {callee : ExprHandle}
    {args : List ExprHandle} (hc : g.contains callee = true)
    (ha : ∀ e ∈ args, g.contains e = true) :
    Build.Yields g (Build.recordedCall callee args) fun e g' => g'.contains e = true :=
  .bind hg Build.Makes.autoType fun _ _ hgrow _ ht =>
    Build.Makes.call ht (hgrow.contains hc) fun e he => hgrow.contains (ha e he)

/-- Whether the constraint in force speaks of an expression is found out at the price of new
constraint nodes. -/
theorem admitted?_run (hs : s.Fits) (ho : s.context.oracle = .structural) (e : ExprHandle) :
    ∃ found g, s.graph.Grows g ∧ admitted? e s = (.ok found, { s with graph := g }) ∧
      found.isSome = s.context.currentConstraint?.any fun constraints =>
        (Build.admission? constraints e s.graph).1.isSome := by
  rw [admitted?, Action.context_bind, ho]
  cases hc : s.context.currentConstraint? with
  | none => exact ⟨none, s.graph, .refl _, rfl, rfl⟩
  | some constraints =>
    refine ⟨_, _, ?_, rfl, rfl⟩
    exact (Build.Yields.admission? hs.graph _ (hs.context.currentConstraint? hc)).1

/-- A dependent call that is not put off ends as its verdict says. -/
theorem constrainedCall_ends (hs : s.Fits) (ho : s.context.oracle = .structural)
    {callee : ExprHandle} {args : List ExprHandle} (hc : s.graph.contains callee = true)
    (ha : ∀ e ∈ args, s.graph.contains e = true) :
    Ends { s with graph := (Build.recordedCall callee args s.graph).2 }
      (constrainedCall callee args (Build.recordedCall callee args s.graph).1)
      (s.context.constrainedVerdict s.graph callee args) := by
  obtain ⟨hgrow, -⟩ := Build.Yields.recordedCall hs.graph hc ha
  have hs' : Session.Fits { s with graph := (Build.recordedCall callee args s.graph).2 } :=
    ⟨hgrow.wellFormed hs.graph, hs.context.extend hgrow⟩
  obtain ⟨found, g, hgrow', hrun, hfound⟩ := admitted?_run hs' ho _
  have hadmits : found.isSome = s.context.admits s.graph callee args := hfound
  refine .bind hrun rfl ?_
  rw [Context.constrainedVerdict, ← hadmits]
  cases found with
  | some e => exact .pure e
  | none =>
    have hgrow'' := hgrow.trans hgrow'
    refine .graph_bind ?_
    dsimp only [Option.isSome_none]
    rw [if_neg Bool.false_ne_true, hgrow''.extends.expr hc]
    cases hform : (s.graph.expr callee).form with
    | templateRef template =>
      have hd : s.graph.contains template = true :=
        contains_of_isTemplateDecl (hs.graph.fits_of_expr hc hform).2.1
      dsimp only
      rw [← hs.context.templateVerdict_extend hs.graph hgrow'' hd ha]
      exact templateCall_ends (s := { s with graph := g })
        ⟨hgrow''.wellFormed hs.graph, hs.context.extend hgrow''⟩ ho (hgrow''.contains hd)
        fun e he => hgrow''.contains (ha e he)
    | reference d =>
      dsimp only
      split
      · exact .throw rfl
      · exact .throw rfl
    | _ => exact .throw rfl

/-- A dependent call ends as its verdict says. -/
theorem dependentCall_ends (hs : s.Fits) (ho : s.context.oracle = .structural)
    {callee : ExprHandle} {args : List ExprHandle} (hc : s.graph.contains callee = true)
    (ha : ∀ e ∈ args, s.graph.contains e = true) :
    Ends s (dependentCall callee args)
      (if s.context.inRequirements || s.context.inUnconstrainedTemplate then .accepted
        else s.context.constrainedVerdict s.graph callee args) := by
  refine .build_bind (.build_bind (.context_bind ?_))
  dsimp only
  by_cases hreq : s.context.inRequirements = true
  · rw [if_pos hreq, hreq, Bool.true_or, if_pos rfl]
    exact .require _
  · rw [if_neg hreq, eq_false_of_ne_true hreq, Bool.false_or]
    by_cases hfree : s.context.inUnconstrainedTemplate = true
    · rw [if_pos hfree, if_pos hfree]
      exact .pure _
    · rw [if_neg hfree, if_neg hfree]
      exact constrainedCall_ends hs ho hc ha

/-- The call of a named function ends as its verdict says. -/
theorem resolvedCall_ends (callee : ExprHandle) (args : List ExprHandle) :
    Ends s (attempt (Build.resolvedCall callee args)) (s.graph.namedVerdict callee args) := by
  rw [namedVerdict, Build.resolvedCall]
  cases hf : s.graph.namedFunction? callee with
  | none =>
    refine Ends.attempt_error (e := .type (.notCallable callee)) (g := s.graph) ?_ rfl
    rw [Attempt.get_bind, hf]
    rfl
  | some p =>
    dsimp only
    by_cases hlen : p.1 = args.length
    · rw [if_pos hlen]
      refine Ends.attempt_ok (a := (Build.call p.2 callee args s.graph).1)
        (g := (Build.call p.2 callee args s.graph).2) ?_
      rw [Attempt.get_bind, hf]
      dsimp only
      rw [if_pos hlen]
      rfl
    · rw [if_neg hlen]
      refine Ends.attempt_error (e := .type (.argumentCount p.1 args.length)) (g := s.graph) ?_ rfl
      rw [Attempt.get_bind, hf]
      dsimp only
      rw [if_neg hlen]
      rfl

/-- **A call ends as its verdict says.** -/
theorem call_ends (hs : s.Fits) (ho : s.context.oracle = .structural) {callee : ExprHandle}
    {args : List ExprHandle} (hc : s.graph.contains callee = true)
    (ha : ∀ e ∈ args, s.graph.contains e = true) :
    Ends s (call callee args) (s.context.verdict s.graph callee args) := by
  rw [Context.verdict]
  refine .graph_bind ?_
  by_cases hdep : s.graph.isDependentCall callee args = true
  · rw [if_pos hdep, if_pos (show (_ || _) = true from hdep)]
    exact dependentCall_ends hs ho hc ha
  · rw [if_neg hdep, if_neg (show ¬ (_ || _) = true from hdep)]
    exact resolvedCall_ends callee args

end Action

/-! ## What a caller sees -/

namespace Session

variable {ρ : Type} (s : Session ρ) (callee : ExprHandle) (args : List ExprHandle)

/-- The session in which all that is reported from here on can be seen: nothing is queued, and the
queue drops nothing. -/
def heard : Session ρ :=
  s.enter fun c => { c with diagnostics := .empty .unlimited }

/-- The call is resolved. -/
def Accepts : Prop :=
  ∃ e, (Action.call callee args s).1 = .ok e

/-- The call is reported as not covered by the enclosing constraints, by the error that it fails
with or by a diagnostic. -/
def ReportsUncovered : Prop :=
  (∃ e, (Action.call callee args s).1 = .error e ∧ e.isUncovered = true) ∨
    ∃ d ∈ (Action.call callee args s.heard).2.context.diagnostics.diagnostics, d.code = .w2001

variable {s callee args}

theorem Fits.heard (hs : s.Fits) : s.heard.Fits where
  graph := hs.graph
  context := ⟨hs.context.owners, hs.context.constraints, hs.context.oracle⟩

variable (hs : s.Fits) (ho : s.context.oracle = .structural)
  (hc : s.graph.contains callee = true) (ha : ∀ e ∈ args, s.graph.contains e = true)
include hs ho hc ha

/-- A call is resolved unless it is refused, or not covered where that is an error. -/
theorem accepts_iff : s.Accepts callee args ↔ s.context.verdict s.graph callee args = .accepted ∨
    s.context.verdict s.graph callee args = .uncovered ∧ s.context.config.strict = false := by
  have hends := Action.call_ends hs ho hc ha
  rw [Accepts]
  cases hv : s.context.verdict s.graph callee args with
  | accepted =>
    rw [hv] at hends
    simpa using hends.1
  | uncovered =>
    rw [hv, Action.Ends] at hends
    split at hends
    · next hstrict =>
      obtain ⟨⟨e, he, -⟩, -⟩ := hends
      simp [he, hstrict]
    · next hstrict => simpa [hstrict] using hends.1
  | refused =>
    rw [hv] at hends
    obtain ⟨⟨e, he, -⟩, -⟩ := hends
    simp [he]

/-- A call is reported exactly if it is not covered. -/
theorem reportsUncovered_iff : s.ReportsUncovered callee args ↔
    s.context.verdict s.graph callee args = .uncovered := by
  have hends := Action.call_ends hs ho hc ha
  have hheard : Action.Ends s.heard (Action.call callee args)
      (s.context.verdict s.graph callee args) :=
    Action.call_ends hs.heard ho hc ha
  have hempty : s.heard.context.diagnostics.diagnostics = [] := rfl
  rw [ReportsUncovered]
  cases hv : s.context.verdict s.graph callee args with
  | accepted =>
    rw [hv] at hends hheard
    obtain ⟨⟨a, ha⟩, -⟩ := hends
    simp [ha, hheard.2, hempty]
  | uncovered =>
    rw [hv, Action.Ends] at hends hheard
    by_cases hstrict : s.context.config.strict = true
    · rw [if_pos hstrict] at hends
      simp [hends.1]
    · rw [if_neg (show ¬ s.heard.context.config.strict = true from hstrict)] at hheard
      obtain ⟨-, spelling, hdiag⟩ := hheard
      refine iff_of_true (.inr ⟨uncoveredReport spelling s.context.location, ?_, rfl⟩) rfl
      rw [hdiag]
      exact List.mem_cons_self
  | refused =>
    rw [hv] at hends hheard
    obtain ⟨⟨e, he, hfailure⟩, -⟩ := hends
    simp [he, hfailure, hheard.2, hempty]

/-- **A call is resolved without a report exactly if its verdict is that it is accepted.** -/
theorem accepts_silently_iff : s.Accepts callee args ∧ ¬ s.ReportsUncovered callee args ↔
    s.context.verdict s.graph callee args = .accepted := by
  rw [accepts_iff hs ho hc ha, reportsUncovered_iff hs ho hc ha]
  cases s.context.verdict s.graph callee args <;> simp

end Session
end SemanticCore
