import SemanticCore.Proofs.Action.Walk
import SemanticCore.Proofs.Context.Extension

/-!
# Actions extend the context

`Course.extending c` is the course of the actions that end with a context which extends `c`, and
that do not break a precondition of restoring marks.  Here `c` is the context at some earlier
moment, so that one course serves every mark taken since then.

On this course an action may refer to whatever it likes, and complete it.
-/

set_option autoImplicit false
namespace SemanticCore

/-- The failure is a broken precondition of restoring marks. -/
def Failure.isDepth : Failure → Bool
  | misuse .scopeDepth | misuse .templateDepth => true
  | _ => false

variable {ρ α : Type}

/-- The context extends `c`, and marks are restored at the right depth. -/
def Course.extending (c : Context) : Course ρ where
  Holds s := c.Extends s.context
  Leads _ s' := c.Extends s'.context
  Fails e := e.isDepth = false
  Names _ _ := True
  Completes _ := True
  refl h := h
  trans _ _ h := h
  holds _ h := h
  names _ _ := trivial

namespace Course.extending

variable {c : Context} {s : Session ρ} {P : α → Graph → Prop}

theorem build (h : c.Extends s.context) (x : Build α) (hP : ∀ a g, P a g) :
    (Course.extending c).Follows s (Action.build x) P :=
  .build h (hP _ _)

theorem attempt (h : c.Extends s.context) (x : Attempt SemanticError α) (hP : ∀ a g, P a g) :
    (Course.extending c).Follows s (Action.attempt x) P :=
  .attempt h h (fun _ _ => hP _ _) fun _ _ => rfl

theorem construct (h : c.Extends s.context) (x : Attempt BuildError α) (hP : ∀ a g, P a g) :
    (Course.extending c).Follows s (Action.construct x) P :=
  attempt h _ hP

theorem restore (h : c.Extends s.context) {m : Marks} (hm : m.Above c) :
    (Course.extending c).Follows s (Action.restore m) fun _ _ => True := by
  obtain ⟨c', hc', hext⟩ := h.restore hm
  refine .changeContext h (fun c'' hc'' => ?_) fun e he => ?_
  · cases hc'.symm.trans hc''
    exact hext
  · cases hc'.symm.trans he

theorem reportError (h : c.Extends s.context) (d : Diagnostic) :
    (Course.extending c).Follows s (Action.reportError d) fun _ _ => True := by
  refine .changeContext h (fun _ => h.reportError) fun m hm => ?_
  rw [Context.reportError, DiagnosticQueue.report] at hm
  split at hm
  · cases hm
  · next hd =>
    cases hm
    split at hd
    · cases hd
    · cases hd
      rfl

theorem require (h : c.Extends s.context) (e : ExprHandle) :
    (Course.extending c).Follows s (Action.require e) fun _ _ => True := by
  refine .context_bind (.graph_bind ?_)
  exact .bind h (.modifyContext (h.require s.graph e)) fun _ _ h' _ _ _ => .pure h' trivial

theorem declares : (Course.extending c : Course ρ).Declares where
  error _ := rfl
  stale := rfl
  bindName n d h := h.bind n d
  restore h h' := restore h' h.marks_above
  currentScope _ := trivial
  setContext h _ _ := build h _ fun _ _ => trivial
  setContexts h _ _ := build h _ fun _ _ => trivial
  variableDecl h _ _ := build h _ fun _ _ => ⟨trivial, trivial⟩
  initVariable h _ _ _ := build h _ fun _ _ => trivial
  functionDecl h _ _ := construct h _ fun _ _ => ⟨trivial, trivial⟩
  classDecl h _ := build h _ fun _ _ => ⟨trivial, trivial⟩
  classDefinition h _ := build h _ fun _ _ => trivial
  functionDefinition h _ := build h _ fun _ _ => trivial
  define h _ _ := construct h _ fun _ _ => trivial
  templateDecl h _ _ _ := build h _ fun _ _ => ⟨trivial, trivial⟩
  conceptOfExpr h _ _ _ := build h _ fun _ _ => ⟨trivial, trivial⟩
  requiresExpr h _ _ _ := build h _ fun _ _ => trivial

theorem call (h : c.Extends s.context) (callee : ExprHandle) (args : List ExprHandle) :
    (Course.extending c).Follows s (Action.call callee args) fun _ _ => True := by
  have hbuild : ∀ {β : Type} {s : Session ρ} (x : Build β), c.Extends s.context →
      (Course.extending c).Follows s (Action.build x) fun _ _ => True :=
    fun x h => build h x fun _ _ => trivial
  refine .call (fun _ => .dependentCall h (hbuild _ h) (fun h₁ _ => hbuild _ h₁)
    (fun h₂ _ => require h₂ _) (fun _ => trivial) fun h₂ _ => ?_)
    fun _ => attempt h _ fun _ _ => trivial
  refine .constrainedCall h₂ rfl (fun _ => rfl) (fun _ _ => h₂) (fun _ _ _ _ => trivial)
    fun _ h₃ => ?_
  exact .templateCall h₃ (.of_error fun _ => rfl) (fun _ _ => attempt h₃ _ fun _ _ => trivial)
    (fun _ h₄ _ => h₄) (fun _ _ h₄ => h₄.warn _) fun _ _ _ h₅ => hbuild _ h₅

theorem nameExpr (h : c.Extends s.context) (n : NameHandle) :
    (Course.extending c).Follows s (Action.nameExpr n) fun _ _ => True :=
  .nameExpr h (fun _ => rfl) (fun _ => construct h _ fun _ _ => trivial)
    (fun _ => construct h _ fun _ _ => trivial) n

/-! ## Frames and trials -/

/-- Whatever is left below a frame extends what was there when the frame was entered. -/
theorem within {f : Frame} {x : Action ρ α} (h : c.Extends s.context)
    (hx : (Course.extending (f.enter s.context)).Follows (s.enter f.enter) x P) :
    (Course.extending c).Follows s (Action.within f x) P := by
  refine ⟨h.trans ?_, hx.result, hx.fails⟩
  cases f with
  | scope owner => exact .popScope hx.leads
  | template params constraint => exact .popTemplate hx.leads
  | requirements => exact .popRequirements hx.leads

/-- The parameters are declared in the new frame, and the body goes on from there. -/
theorem framed {f : Frame} {params : List DeclHandle} {x : Action ρ α} (h : c.Extends s.context)
    (hb : ∀ s₁, Action.Begins f.enter params s s₁ → ∀ {c}, c.Extends s₁.context →
      (Course.extending c).Follows s₁ x P) :
    (Course.extending c).Follows s
      (Action.within f (Action.declareAll params >>= fun _ => x)) P :=
  have hrefl : (f.enter s.context).Extends (f.enter s.context) := .refl _
  within h (.bind hrefl (.declareAll declares (fun _ _ => trivial) hrefl)
    fun _ s₁ h₁ _ _ hs₁ => hb s₁ hs₁ h₁)

/-- Whatever the trial of an action undoes is newer than `c`. -/
theorem trial {x : Action ρ α} (h : c.Extends s.context)
    (hx : (Course.extending c).Follows s x P) :
    (Course.extending c).Follows s (Action.trial x) P :=
  .trial h hx fun _ h' _ => restore h' h.marks_above

end Course.extending
end SemanticCore
