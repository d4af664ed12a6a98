import SemanticCore.Proofs.Action.Ending
import SemanticCore.Proofs.Action.Extension

/-!
# Actions and the open scopes

Most of what actions do has nothing to do with the open scopes: building, reporting, requiring and
resolving calls neither look at them nor change them.  `Action.Blind x y` says that the actions `x`
and `y`, which may have clients of different kinds, cannot be told apart in sessions whose contexts
differ in the scopes and bindings only; these, and the state of the client, stay as they are.  Two
runs are compared here, so this is no course of actions; for calls it is read off their endings.

What is left is declaring.  It binds one name in the innermost scope, or fails and changes nothing.

* `Action.Blind.call` — **resolving a call does not see the scopes.**
* `Action.Blind.unchanged` — an action that does not see the scopes does not change them.
* `Action.declare_of_free`, `declare_of_bound`, `declare_of_stale` — what declaring does, and
  `Action.restore_bound` — how it is undone.
-/

set_option autoImplicit false
namespace SemanticCore

/-- The context with other scopes and bindings. -/
def Context.withScopes (c : Context) (scopes : List Scope)
    (bindings : List (NameHandle × DeclHandle)) : Context :=
  { c with scopes, bindings }

section WithScopes

variable (c : Context) (scopes : List Scope) (bindings : List (NameHandle × DeclHandle))

theorem Context.require_withScopes (g : Graph) (e : ExprHandle) :
    (c.withScopes scopes bindings).require g e =
      ((c.require g e).1, (c.require g e).2.withScopes scopes bindings) := by
  obtain ⟨_, _, _, _, requirements, _, _, _⟩ := c
  cases requirements with
  | nil => rfl
  | cons required outer =>
    simp only [require, withScopes]
    cases required.find? fun x => g.equivalent x e <;> rfl

theorem Context.reportError_withScopes (d : Diagnostic) :
    (c.withScopes scopes bindings).reportError d =
      (c.reportError d).map (·.withScopes scopes bindings) := by
  simp only [reportError, withScopes]
  cases c.diagnostics.report d <;> rfl

end WithScopes

variable {ρ σ α β : Type}

/-- The sessions agree on everything but the scopes and the state of the client; the first one has
the given scopes and bindings. -/
structure Session.AgreesBut (scopes : List Scope) (bindings : List (NameHandle × DeclHandle))
    (s : Session ρ) (t : Session σ) : Prop where
  graph : s.graph = t.graph
  context : s.context = t.context.withScopes scopes bindings

/-- The first session is the second one in surroundings with other scopes and bindings. -/
theorem Session.AgreesBut.eq_amid {scopes : List Scope}
    {bindings : List (NameHandle × DeclHandle)} {s : Session ρ} {t : Session σ}
    (h : s.AgreesBut scopes bindings t) : s = t.amid
      ⟨t.context.config.strict, t.context.diagnostics, scopes, bindings, s.client⟩ := by
  obtain ⟨_, _, _⟩ := s
  obtain ⟨hgraph, hcontext⟩ := h
  cases hgraph
  cases hcontext
  rfl

namespace Action

/-- The two actions do the same, whatever scopes are open, and leave the scopes and the client as
they are. -/
def Blind (x : Action ρ α) (y : Action σ α) : Prop :=
  ∀ scopes bindings s t, s.AgreesBut scopes bindings t →
    (x s).1 = (y t).1 ∧ (x s).2.AgreesBut scopes bindings (y t).2 ∧
      (x s).2.client = s.client ∧ (y t).2.client = t.client

namespace Blind

/-! ## Steps -/

theorem pure (a : α) : Blind (Pure.pure a : Action ρ α) (Pure.pure a : Action σ α) :=
  fun _ _ _ _ h => ⟨rfl, h, rfl, rfl⟩

theorem throw (e : Failure) :
    Blind (MonadExcept.throw e : Action ρ α) (MonadExcept.throw e : Action σ α) :=
  fun _ _ _ _ h => ⟨rfl, h, rfl, rfl⟩

theorem bind {x : Action ρ α} {y : Action σ α} {f : α → Action ρ β} {g : α → Action σ β}
    (hx : Blind x y) (hf : ∀ a, Blind (f a) (g a)) : Blind (x >>= f) (y >>= g) := by
  intro scopes bindings s t h
  obtain ⟨hres, h', hs, ht⟩ := hx scopes bindings s t h
  rcases hxs : x s with ⟨r, s'⟩
  rcases hyt : y t with ⟨r', t'⟩
  rw [hxs, hyt] at hres h'
  rw [hxs] at hs
  rw [hyt] at ht
  cases hres
  cases r with
  | error e =>
    rw [bind_of_error hxs, bind_of_error hyt]
    exact ⟨rfl, h', hs, ht⟩
  | ok a =>
    rw [bind_of_ok hxs, bind_of_ok hyt]
    obtain ⟨hres, h', hs', ht'⟩ := hf a scopes bindings s' t' h'
    exact ⟨hres, h', hs'.trans hs, ht'.trans ht⟩

theorem graph_bind {f : Graph → Action ρ β} {g : Graph → Action σ β} (h : ∀ a, Blind (f a) (g a)) :
    Blind (Action.graph >>= f) (Action.graph >>= g) := by
  intro scopes bindings s t hst
  have hrun : (Action.graph >>= f) s = f t.graph s := congrArg (f · s) hst.graph
  rw [hrun]
  exact h t.graph scopes bindings s t hst

/-- What is read of the context is not the scopes. -/
theorem context_bind {f : Context → Action ρ β} {g : Context → Action σ β}
    (hf : ∀ c scopes bindings, f (c.withScopes scopes bindings) = f c)
    (h : ∀ c, Blind (f c) (g c)) : Blind (Action.context >>= f) (Action.context >>= g) := by
  intro scopes bindings s t hst
  have hrun : (Action.context >>= f) s = f t.context s := by
    rw [Action.context_bind, hst.context, hf]
  rw [hrun, Action.context_bind]
  exact h t.context scopes bindings s t hst

/-- A step that reads the graph and the context, and changes the context elsewhere. -/
theorem step {k : Graph → Context → Except Failure α × Context}
    (hk : ∀ g c scopes bindings, k g (c.withScopes scopes bindings) =
      ((k g c).1, (k g c).2.withScopes scopes bindings)) :
    Blind
      (fun s : Session ρ =>
        ((k s.graph s.context).1, { s with context := (k s.graph s.context).2 }))
      (fun s : Session σ =>
        ((k s.graph s.context).1, { s with context := (k s.graph s.context).2 })) := by
  intro scopes bindings s t h
  have hrun : k s.graph s.context =
      ((k t.graph t.context).1, (k t.graph t.context).2.withScopes scopes bindings) := by
    rw [h.graph, h.context, hk]
  exact ⟨congrArg Prod.fst hrun, ⟨h.graph, congrArg Prod.snd hrun⟩, rfl, rfl⟩

theorem modifyContext {k : Context → Context} (hk : ∀ c scopes bindings,
    k (c.withScopes scopes bindings) = (k c).withScopes scopes bindings) :
    Blind (Action.modifyContext k : Action ρ Unit) (Action.modifyContext k : Action σ Unit) :=
  step (k := fun _ c => (.ok (), k c)) fun _ c scopes bindings => by rw [hk]

theorem build (x : Build α) :
    Blind (Action.build x : Action ρ α) (Action.build x : Action σ α) := by
  rintro scopes bindings ⟨g, c, client⟩ ⟨g', c', client'⟩ ⟨hg, hc⟩
  cases hg
  exact ⟨rfl, ⟨rfl, hc⟩, rfl, rfl⟩

theorem attempt (x : Attempt SemanticError α) :
    Blind (Action.attempt x : Action ρ α) (Action.attempt x : Action σ α) := by
  refine bind (build _) fun r => ?_
  cases r with
  | ok a => exact pure a
  | error e => exact throw _

theorem construct (x : Attempt BuildError α) :
    Blind (Action.construct x : Action ρ α) (Action.construct x : Action σ α) :=
  attempt _

/-! ## Reports and requirements -/

theorem look : Blind (Action.look : Action ρ _) (Action.look : Action σ _) :=
  graph_bind fun _ => context_bind (fun _ _ _ => rfl) fun _ => pure _

theorem require (e : ExprHandle) :
    Blind (Action.require e : Action ρ _) (Action.require e : Action σ _) :=
  step (k := fun g c => (.ok (c.require g e).1, (c.require g e).2))
    fun g c scopes bindings => by rw [c.require_withScopes]

theorem changeQueue (k : DiagnosticQueue → α × DiagnosticQueue) :
    Blind (Action.changeQueue k : Action ρ α) (Action.changeQueue k : Action σ α) :=
  step (k := fun _ c => (.ok (k c.diagnostics).1, { c with diagnostics := (k c.diagnostics).2 }))
    fun _ _ _ _ => rfl

theorem reportError (d : Diagnostic) :
    Blind (Action.reportError d : Action ρ _) (Action.reportError d : Action σ _) := by
  intro scopes bindings s t h
  have hreport := t.context.reportError_withScopes scopes bindings d
  rw [← h.context] at hreport
  rw [Action.reportError, Action.reportError, changeContext, changeContext, Action.context_bind,
    Action.context_bind, hreport]
  cases t.context.reportError d with
  | ok c => exact ⟨rfl, ⟨h.graph, rfl⟩, rfl, rfl⟩
  | error m => exact ⟨rfl, h, rfl, rfl⟩

/-! ## Resolving calls -/

/-- **Resolving a call does not see the scopes**, which are of its surroundings. -/
theorem call (callee : ExprHandle) (args : List ExprHandle) :
    Blind (Action.call callee args : Action ρ _) (Action.call callee args : Action σ _) := by
  intro scopes bindings s t h
  have hs := h.eq_amid
  generalize s.client = client at hs
  subst hs
  have ht : Action.call callee args t = Action.call callee args (t.amid t.surroundings) := rfl
  cases call_ending t callee args with
  | resolved _ hrun =>
    rw [ht, hrun, hrun]
    exact ⟨rfl, ⟨rfl, rfl⟩, rfl, rfl⟩
  | uncovered _ _ hrun =>
    by_cases hstrict : t.context.config.strict = true
    · rw [ht, (hrun _).trans (if_pos hstrict), (hrun _).trans (if_pos hstrict)]
      exact ⟨rfl, ⟨rfl, rfl⟩, rfl, rfl⟩
    · rw [ht, (hrun _).trans (if_neg hstrict), (hrun _).trans (if_neg hstrict)]
      exact ⟨rfl, ⟨rfl, rfl⟩, rfl, rfl⟩
  | failed hrun =>
    rw [ht, hrun, hrun]
    exact ⟨rfl, ⟨rfl, rfl⟩, rfl, rfl⟩

/-! ## What such an action leaves as it is -/

variable {x : Action ρ α} {s : Session ρ}

/-- An action that does not see the scopes does not change them. -/
theorem unchanged (h : Blind x x) : (x s).2.context.scopes = s.context.scopes ∧
    (x s).2.context.bindings = s.context.bindings ∧ (x s).2.client = s.client := by
  have hself : s.AgreesBut s.context.scopes s.context.bindings s := ⟨rfl, rfl⟩
  obtain ⟨-, hafter, hclient, -⟩ := h _ _ s s hself
  refine ⟨?_, ?_, hclient⟩
  · rw [hafter.context]
    rfl
  · rw [hafter.context]
    rfl

end Blind

/-! ## Declaring -/

section Declare

variable {s : Session ρ} {d earlier : DeclHandle}

/-- A name that the innermost scope does not bind is bound there. -/
theorem declare_of_free (h : s.context.lookupLocal? (s.graph.decl d).name = .ok none) :
    declare d s = (.ok (), { s with
      graph := (Build.setContext d s.context.currentScope s.graph).2
      context := s.context.bind (s.graph.decl d).name d }) := by
  have hlookup : lookupLocal? (s.graph.decl d).name s = (.ok none, s) := by
    rw [lookupLocal?, context_bind, h]
    rfl
  exact (bind_of_ok hlookup).trans rfl

/-- A name that the innermost scope binds cannot be declared there again. -/
theorem declare_of_bound
    (h : s.context.lookupLocal? (s.graph.decl d).name = .ok (some earlier)) :
    declare d s = (.error (.error (.type (.redefinition earlier))), s) := by
  have hlookup : lookupLocal? (s.graph.decl d).name s = (.ok (some earlier), s) := by
    rw [lookupLocal?, context_bind, h]
    rfl
  exact (bind_of_ok hlookup).trans rfl

theorem declare_of_stale {m : Misuse}
    (h : s.context.lookupLocal? (s.graph.decl d).name = .error m) :
    declare d s = (.error (.misuse m), s) := by
  have hlookup : lookupLocal? (s.graph.decl d).name s = (.error (.misuse m), s) := by
    rw [lookupLocal?, context_bind, h]
    rfl
  exact (bind_of_error hlookup : (lookupLocal? _ >>= _) s = _)

/-- Marks that were taken before a name was bound take the binding back, and nothing else. -/
theorem restore_bound {c : Context} {n : NameHandle} (h : s.context = c.bind n d) :
    restore c.marks s = (.ok (), { s with context := c }) := by
  have hrestore := ((Context.Extends.refl c).bind n d).restore_marks
  rw [← h] at hrestore
  have hplace : s.context.location = c.location := by rw [h]; rfl
  rw [hplace] at hrestore
  exact restore_of_ok hrestore

end Declare

end Action
end SemanticCore
