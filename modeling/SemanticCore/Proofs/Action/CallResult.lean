import SemanticCore.Proofs.Action.Growth
import SemanticCore.Proofs.Expr.Erasure
import SemanticCore.Proofs.Graph.Quiet

/-!
# What a call is resolved to

A call that is resolved need not be a new node.  Inside a requires-expression it is the expression
that was required first, and where the enclosing constraints speak of the call it is the expression
that they contain.  Whichever it is, it is a call of the same callee with the same arguments:
`Graph.StandsFor` says that an expression is equivalent to one that records the call as it was
written.

* `Graph.StandsFor.form` — what stands for a call is a call.
* `Action.call_result` — **the expression that a call is resolved to stands for the call.**

Neither the graph nor the context has to be well formed for this.
-/

set_option autoImplicit false
namespace SemanticCore

open SemanticCore.Graph

/-! ## Expressions that stand for a call -/

namespace Graph

variable {g : Graph} {e callee : ExprHandle} {args : List ExprHandle}

/-- The expression is equivalent to one that records the call of `callee` with `args`. -/
def StandsFor (g : Graph) (e callee : ExprHandle) (args : List ExprHandle) : Prop :=
  ∃ c, (g.expr c).form = .call callee args ∧ g.equivalent e c = true

/-- What records a call stands for it. -/
theorem standsFor_of_form (h : (g.expr e).form = .call callee args) :
    g.StandsFor e callee args :=
  ⟨e, h, equivalent_refl g e⟩

/-- Lists that agree position by position under a relation agree under every weaker one. -/
theorem isEqv_mono {α : Type} {r r' : α → α → Bool} (hr : ∀ x y, r x y = true → r' x y = true)
    {xs ys : List α} (h : xs.isEqv ys r = true) : xs.isEqv ys r' = true := by
  induction xs generalizing ys with
  | nil => cases ys with
    | nil => rfl
    | cons y ys => cases h
  | cons x xs ih => cases ys with
    | nil => cases h
    | cons y ys =>
      rw [List.isEqv, Bool.and_eq_true] at h ⊢
      exact ⟨hr x y h.1, ih h.2⟩

/-- A list agrees with itself under a reflexive relation. -/
theorem isEqv_refl {α : Type} {r : α → α → Bool} (hr : ∀ x, r x x = true) (xs : List α) :
    xs.isEqv xs r = true := by
  induction xs with
  | nil => rfl
  | cons x xs ih => rw [List.isEqv, hr, ih, Bool.and_self]

theorem equivalentAll_refl (g : Graph) (es : List ExprHandle) :
    g.equivalentAll es es = true :=
  isEqv_refl (equivalent_refl g) es

/-- What is equivalent to a call is a call, with an equivalent callee and equivalent arguments in
the same order. -/
theorem form_of_equivalent_call {c : ExprHandle} (hc : (g.expr c).form = .call callee args)
    (h : g.equivalent e c = true) : ∃ f xs, (g.expr e).form = .call f xs ∧
      g.equivalent f callee = true ∧ g.equivalentAll xs args = true := by
  -- the comparison of the parts is equivalence, cut short on what was not built before `e`
  have hpart : ∀ x y, (if _ : x < e then g.equivalent x y else x == y) = true →
      g.equivalent x y = true := by
    intro x y hxy
    split at hxy
    · exact hxy
    · rw [beq_iff_eq.1 hxy]
      exact equivalent_refl g y
  rw [equivalent, Bool.or_eq_true, beq_iff_eq] at h
  rcases h with rfl | h
  · exact ⟨callee, args, hc, equivalent_refl g callee, equivalentAll_refl g args⟩
  · rw [agree, hc] at h
    cases hf : (g.expr e).form with
    | call f xs =>
      rw [hf, Bool.and_eq_true] at h
      exact ⟨f, xs, rfl, hpart _ _ h.1, isEqv_mono hpart h.2⟩
    | _ =>
      rw [hf] at h
      cases h

namespace StandsFor

/-- **What stands for a call is a call**, with an equivalent callee and equivalent arguments. -/
theorem form (h : g.StandsFor e callee args) : ∃ f xs, (g.expr e).form = .call f xs ∧
    g.equivalent f callee = true ∧ g.equivalentAll xs args = true := by
  obtain ⟨c, hc, he⟩ := h
  exact form_of_equivalent_call hc he

/-- What stands for a call is equivalent to everything that records the call. -/
theorem equivalent (h : g.StandsFor e callee args) {c : ExprHandle}
    (hc : (g.expr c).form = .call callee args) : g.equivalent e c = true := by
  obtain ⟨d, hd, he⟩ := h
  rw [Graph.equivalent, Bool.or_eq_true, beq_iff_eq] at he ⊢
  -- the two calls are the same call, so comparing with one is comparing with the other
  have hagree : ∀ same, g.agree same (g.expr e) (g.expr c) =
      g.agree same (g.expr e) (g.expr d) := by
    intro same
    rw [agree, agree, hc, hd]
    cases (g.expr e).form <;> rfl
  have hself : ∀ x, (if _ : x < e then g.equivalent x x else x == x) = true := by
    intro x
    split
    · exact equivalent_refl g x
    · exact beq_self_eq_true x
  refine .inr ?_
  rw [hagree]
  rcases he with rfl | he
  · rw [agree, hd]
    exact Bool.and_eq_true_iff.2 ⟨hself callee, isEqv_refl hself args⟩
  · exact he

end StandsFor

/-! ## What constraints admit -/

/-- The expression by which an atom admits a call stands for the call. -/
theorem standsFor_of_admittedBy? {recorded : ExprHandle} {atom : ConsHandle}
    (hr : (g.expr recorded).form = .call callee args)
    (h : g.admittedBy? recorded atom = some e) : g.StandsFor e callee args := by
  rw [admittedBy?] at h
  split at h
  · split at h
    · next p _ hp =>
      cases h
      exact ⟨recorded, hr, hp⟩
    · split at h
      · obtain ⟨r, -, hreq⟩ := List.exists_of_findSome?_eq_some h
        exact ⟨recorded, hr, (Option.filter_eq_some_iff.1 hreq).2⟩
      · cases h
  · cases h

end Graph

/-! ## The steps that find or record a call -/

/-- A call is recorded as it was given. -/
theorem Build.call_form (t : TypeHandle) (callee : ExprHandle) (args : List ExprHandle)
    (g : Graph) : (Graph.expr (call t callee args g).2 (call t callee args g).1).form =
      .call callee args :=
  congrArg Expr.form ((getD_push g.exprs _ default _).trans (if_pos rfl))

/-- A call of a named function is recorded as it was given. -/
theorem Build.resolvedCall_form {callee e : ExprHandle} {args : List ExprHandle} {g g' : Graph}
    (h : resolvedCall callee args g = (.ok e, g')) : (g'.expr e).form = .call callee args := by
  rw [resolvedCall, Attempt.get_bind] at h
  cases hf : g.namedFunction? callee with
  | none =>
    rw [hf] at h
    cases h
  | some named =>
    rw [hf] at h
    dsimp only at h
    by_cases hlen : named.1 = args.length
    · rw [if_pos hlen] at h
      cases h
      exact call_form named.2 callee args g
    · rw [if_neg hlen] at h
      cases h

/-- What is required for an expression that records a call stands for the call: it is this
expression, or an equivalent one that was required before. -/
theorem Context.standsFor_of_require {c : Context} {g : Graph} {recorded callee : ExprHandle}
    {args : List ExprHandle} (hr : (g.expr recorded).form = .call callee args) :
    g.StandsFor (c.require g recorded).1 callee args := by
  rw [Context.require]
  split
  · exact standsFor_of_form hr
  · split
    · next x hx =>
      have heqv : g.equivalent x recorded = true :=
        List.find?_some (p := fun y => g.equivalent y recorded) hx
      exact ⟨recorded, hr, heqv⟩
    · exact standsFor_of_form hr

/-- The expression by which constraints admit a call that is recorded stands for the call.  Looking
for it changes neither the call nor what it is compared with. -/
theorem Build.standsFor_of_admission? {g g' : Graph} {constraints recorded e callee : ExprHandle}
    {args : List ExprHandle} (hr : (g.expr recorded).form = .call callee args)
    (h : admission? constraints recorded g = (some e, g')) : g'.StandsFor e callee args := by
  have hquiet : (normalize constraints g).2.exprs = g.exprs := Quiet.normalize constraints g
  have hsearch : ((normalize constraints g).2.conjuncts (normalize constraints g).1).findSome?
      ((normalize constraints g).2.admittedBy? recorded) = some e := congrArg Prod.fst h
  obtain ⟨atom, -, hatom⟩ := List.exists_of_findSome?_eq_some hsearch
  have hr' : ((normalize constraints g).2.expr recorded).form = .call callee args := by
    rw [Graph.expr, hquiet]
    exact hr
  rw [← show (normalize constraints g).2 = g' from congrArg Prod.snd h]
  exact standsFor_of_admittedBy? hr' hatom

/-! ## The ways to resolve a call -/

/-- The oracle is the one that answers by structure. -/
def Course.structural {ρ : Type} : Course ρ where
  Holds s := s.context.oracle = .structural
  Leads _ s' := s'.context.oracle = .structural
  Fails _ := True
  Names _ _ := True
  Completes _ := True
  refl ho := ho
  trans _ _ ho := ho
  holds _ ho := ho
  names _ _ := trivial

namespace Course.structural

variable {ρ : Type} {s : Session ρ} {callee recorded : ExprHandle} {args : List ExprHandle}

theorem require (ho : s.context.oracle = .structural)
    (hr : (s.graph.expr recorded).form = .call callee args) :
    Course.structural.Follows s (Action.require recorded)
      fun e g => g.StandsFor e callee args where
  leads := (Context.SameFrames.require s.context s.graph recorded).oracle.trans ho
  result := by
    rintro _ ⟨⟩
    exact Context.standsFor_of_require hr
  fails _ _ := trivial

/-- A call of a template is recorded, once the template is specialized. -/
theorem templateCall (ho : s.context.oracle = .structural) (template : DeclHandle) :
    Course.structural.Follows s (Action.templateCall callee template args)
      fun e g => g.StandsFor e callee args :=
  .templateCall ho (.of_error fun _ => trivial)
    (fun _ _ => .attempt ho ho (fun _ _ => trivial) fun _ _ => trivial)
    (fun _ ho' _ => ho') (fun _ _ ho' => ho')
    fun _ _ _ ho' => .build ho' (standsFor_of_form (Build.call_form _ _ _ _))

theorem constrainedCall (ho : s.context.oracle = .structural)
    (hr : (s.graph.expr recorded).form = .call callee args) :
    Course.structural.Follows s (Action.constrainedCall callee args recorded)
      fun e g => g.StandsFor e callee args := by
  refine .constrainedCall ho trivial (fun _ => trivial) (fun _ _ => ho)
    (fun constraints e _ he => ?_) fun _ ho' => templateCall ho' _
  rw [ho] at he ⊢
  exact Build.standsFor_of_admission? hr (Prod.ext he rfl)

theorem call (ho : s.context.oracle = .structural) :
    Course.structural.Follows s (Action.call callee args) fun e g => g.StandsFor e callee args :=
  .call (fun _ => .dependentCall (T := fun _ _ => True)
      (R := fun recorded g => (g.expr recorded).form = .call callee args) ho (.build ho trivial)
      (fun ho' _ => .build ho' (Build.call_form _ _ _ _)) (fun ho' hr => require ho' hr)
      standsFor_of_form fun ho' hr => constrainedCall ho' hr)
    fun _ => .attempt ho ho
      (fun _ he => standsFor_of_form (Build.resolvedCall_form (Prod.ext he rfl)))
      fun _ _ => trivial

end Course.structural

namespace Action

variable {ρ : Type} {s : Session ρ} {callee : ExprHandle} {args : List ExprHandle}

/-- **A call is resolved to a call of the same callee with the same arguments in the same order.**
The result need not be new, but it is equivalent to every expression that records the call, and one
is recorded. -/
theorem call_result (ho : s.context.oracle = .structural) {e : ExprHandle} {s' : Session ρ}
    (h : call callee args s = (.ok e, s')) :
    (∃ f xs, (s'.graph.expr e).form = .call f xs ∧ s'.graph.equivalent f callee = true ∧
      s'.graph.equivalentAll xs args = true) ∧
    (∃ c, (s'.graph.expr c).form = .call callee args) ∧
    ∀ c, (s'.graph.expr c).form = .call callee args → s'.graph.equivalent e c = true := by
  have hstands := (Course.structural.call ho).result e (congrArg Prod.fst h)
  rw [h] at hstands
  exact ⟨hstands.form, ⟨hstands.choose, hstands.choose_spec.1⟩, fun c hc => hstands.equivalent hc⟩

/-- Inside a template over `T` that requires `requires { f(x); }`, where `f` is the name of a
template `template<typename T> T f(T x)`.  The expressions are the name of the template, `x`, the
call `f(x)` and the constraint. -/
def insideRequiredCall : Session Unit where
  graph :=
    let g := Graph.initial .empty 32
    let g := (Build.typeParam .globalName none g).2
    let g := ((Build.typenameType ⟨1⟩).run g).2
    let g := (Build.objectParam .globalName ⟨3⟩ g).2
    let g := ((Build.functionDecl .globalName [⟨2⟩] ⟨3⟩).run g).2
    let g := (Build.templateDecl [⟨1⟩] ⟨3⟩ none g).2
    let g := ((Build.templateReference ⟨4⟩).run g).2
    let g := ((Build.synthesizedValue ⟨2⟩).run g).2
    let g := (Build.call .bool ⟨0⟩ [⟨1⟩] g).2
    let g := (Build.req (.basic ⟨2⟩) g).2
    (Build.requiresExpr [] [] [⟨0⟩] g).2
  context := (Context.initial default .structural).pushTemplate [⟨1⟩] (some ⟨3⟩)
  client := ()

/-- The call `f(x)` is resolved to the one that the constraint requires. -/
theorem call_result_required :
    insideRequiredCall.context.oracle = .structural ∧
    (call ⟨0⟩ [⟨1⟩] insideRequiredCall).1 = .ok ⟨2⟩ ∧
    let g := (call ⟨0⟩ [⟨1⟩] insideRequiredCall).2.graph
    (∃ f xs, (g.expr ⟨2⟩).form = .call f xs ∧ g.equivalent f ⟨0⟩ = true ∧
      g.equivalentAll xs [⟨1⟩] = true) ∧
    (∃ c, (g.expr c).form = .call ⟨0⟩ [⟨1⟩]) ∧
    ∀ c, (g.expr c).form = .call ⟨0⟩ [⟨1⟩] → g.equivalent ⟨2⟩ c = true := by
  have hfound : (call ⟨0⟩ [⟨1⟩] insideRequiredCall).1 = .ok ⟨2⟩ := by decide +kernel
  exact ⟨rfl, hfound, call_result rfl (Prod.ext hfound rfl)⟩

end Action
end SemanticCore
