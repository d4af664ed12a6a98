import SemanticCore.Proofs.Action.Program

/-!
# Courses of actions

Much of what is shown of actions has one form.  Something holds of the session that the action
starts in.  Then it holds of the session that the action ends in, the two sessions are related, a
result is of some kind, and so is a failure.  A `Course` is a choice of what holds, of how sessions
are related and of the failures, and `Course.Follows` says of an action that it is on the course.

The relation is transitive, so an action follows a course if each of its steps does, in whatever
session the steps before have led to.  What is chosen differs a lot: that the context only extends
one from before, that the graph only grows, that a certain declaration is spared, that nothing is
required twice.  What the actions of the semantic core do step by step is gone through only once,
for any course.
-/

set_option autoImplicit false
namespace SemanticCore

/-- What actions keep to. -/
structure Course (ρ : Type) where
  /-- What holds of the sessions that actions start and end in. -/
  Holds : Session ρ → Prop
  /-- How the session that an action ends in is related to the one that it starts in. -/
  Leads : Session ρ → Session ρ → Prop
  /-- What an action may fail with. -/
  Fails : Failure → Prop
  /-- The handles that steps refer to. -/
  Names : {c : Category} → Graph → Handle c → Prop
  /-- The declarations that steps complete. -/
  Completes : DeclHandle → Prop
  refl {s : Session ρ} : Holds s → Leads s s
  trans {s s' s'' : Session ρ} : Holds s → Leads s s' → Leads s' s'' → Leads s s''
  holds {s s' : Session ρ} : Holds s → Leads s s' → Holds s'
  names {s s' : Session ρ} {c : Category} {x : Handle c} :
    Leads s s' → Names s.graph x → Names s'.graph x

variable {ρ α β : Type}

/-- The session after a computation on its graph. -/
def Session.built (s : Session ρ) (x : Build α) : Session ρ :=
  { s with graph := (x s.graph).2 }

/-- An attempt leaves what was built, whether or not it fails. -/
theorem Action.attempt_session (x : Attempt SemanticError α) (s : Session ρ) :
    (Action.attempt x s).2 = s.built x.run := by
  rcases hx : x s.graph with ⟨e | a, g⟩
  · rw [attempt_of_error hx]
    exact congrArg (fun g => { s with graph := g }) (congrArg Prod.snd hx).symm
  · rw [attempt_of_ok hx]
    exact congrArg (fun g => { s with graph := g }) (congrArg Prod.snd hx).symm

namespace Course

/-- The action, started in `s`, is on the course, and if it succeeds its result satisfies `Q`. -/
structure Follows (C : Course ρ) (s : Session ρ) (x : Action ρ α) (Q : α → Graph → Prop) :
    Prop where
  leads : C.Leads s (x s).2
  result : ∀ a, (x s).1 = .ok a → Q a (x s).2.graph
  fails : ∀ e, (x s).1 = .error e → C.Fails e

/-- Actions may refer to the declaration and complete it. -/
def Owns (C : Course ρ) (d : DeclHandle) (g : Graph) : Prop :=
  C.Names g d ∧ C.Completes d

/-- Actions may refer to what the frame is entered for. -/
def Enters (C : Course ρ) (g : Graph) : Frame → Prop
  | .scope owner => C.Names g owner
  | .template _ constraint => ∀ e, constraint = some e → C.Names g e
  | .requirements => True

/-- Frames are entered and left on the course. -/
structure Frames (C : Course ρ) : Prop where
  enter {s : Session ρ} {f : Frame} : C.Holds s → C.Enters s.graph f → C.Holds (s.enter f.enter)
  leave {s s' : Session ρ} (f : Frame) :
    C.Holds s → C.Leads (s.enter f.enter) s' → C.Leads s (s'.enter f.leave)

namespace Follows

variable {C : Course ρ} {s : Session ρ} {x : Action ρ α} {f : α → Action ρ β}
  {P : α → Graph → Prop} {Q : β → Graph → Prop}

/-! ## Steps -/

theorem pure (hs : C.Holds s) {b : β} (h : Q b s.graph) :
    C.Follows s (Pure.pure b : Action ρ β) Q :=
  ⟨C.refl hs, by rintro _ ⟨⟩; exact h, by rintro _ ⟨⟩⟩

theorem throw (hs : C.Holds s) {e : Failure} (he : C.Fails e) :
    C.Follows s (MonadExcept.throw e : Action ρ β) Q :=
  ⟨C.refl hs, by rintro _ ⟨⟩, by rintro _ ⟨⟩; exact he⟩

theorem bind (hs : C.Holds s) (hx : C.Follows s x P)
    (hf : ∀ a s', C.Holds s' → C.Leads s s' → P a s'.graph → x s = (.ok a, s') →
      C.Follows s' (f a) Q) : C.Follows s (x >>= f) Q := by
  obtain ⟨hleads, hres, hfails⟩ := hx
  rcases hxs : x s with ⟨e | a, s'⟩
  · rw [hxs] at hleads hfails
    refine ⟨?_, ?_, ?_⟩
    all_goals rw [Action.bind_of_error hxs]
    · exact hleads
    · rintro _ ⟨⟩
    · rintro _ ⟨⟩
      exact hfails e rfl
  · rw [hxs] at hleads hres
    have h := hf a s' (C.holds hs hleads) hleads (hres a rfl) hxs
    refine ⟨?_, ?_, ?_⟩
    all_goals rw [Action.bind_of_ok hxs]
    · exact C.trans hs hleads h.leads
    · exact h.result
    · exact h.fails

theorem throw_bind (hs : C.Holds s) {e : Failure} (he : C.Fails e) :
    C.Follows s ((MonadExcept.throw e : Action ρ α) >>= f) Q :=
  bind (P := fun _ _ => True) hs (throw hs he) fun _ _ _ _ _ h => nomatch h

theorem mono {P' : α → Graph → Prop} (hx : C.Follows s x P) (h : ∀ a g, P a g → P' a g) :
    C.Follows s x P' :=
  { hx with result := fun a ha => h a _ (hx.result a ha) }

theorem of_eq {y : Action ρ α} (h : x s = y s) (hy : C.Follows s y P) : C.Follows s x P := by
  refine ⟨?_, ?_, ?_⟩
  all_goals rw [h]
  · exact hy.leads
  · exact hy.result
  · exact hy.fails

theorem graph_bind {f : Graph → Action ρ β} (h : C.Follows s (f s.graph) Q) :
    C.Follows s (Action.graph >>= f) Q :=
  ⟨h.leads, h.result, h.fails⟩

theorem context_bind {f : Context → Action ρ β} (h : C.Follows s (f s.context) Q) :
    C.Follows s (Action.context >>= f) Q :=
  ⟨h.leads, h.result, h.fails⟩

theorem build {x : Build α} (h : C.Leads s (s.built x)) (hP : P (x s.graph).1 (x s.graph).2) :
    C.Follows s (Action.build x) P :=
  ⟨h, by rintro _ ⟨⟩; exact hP, by rintro _ ⟨⟩⟩

theorem attempt (hs : C.Holds s) {x : Attempt SemanticError α} (h : C.Leads s (s.built x.run))
    (hP : ∀ a, (x s.graph).1 = .ok a → P a (x s.graph).2)
    (herror : ∀ e, (x s.graph).1 = .error e → C.Fails (.error e)) :
    C.Follows s (Action.attempt x) P := by
  have hrun : C.Follows s (Action.build x.run) fun r g =>
      (∀ a, r = .ok a → P a g) ∧ ∀ e, r = .error e → C.Fails (.error e) := build h ⟨hP, herror⟩
  refine bind hs hrun fun r s' hs' _ hr _ => ?_
  cases r with
  | ok a => exact pure hs' (hr.1 a rfl)
  | error e => exact throw hs' (hr.2 e rfl)

theorem modifyContext {k : Context → Context} (h : C.Leads s (s.enter k)) :
    C.Follows s (Action.modifyContext k) fun _ _ => True :=
  ⟨h, fun _ _ => trivial, by rintro _ ⟨⟩⟩

theorem changeContext (hs : C.Holds s) {k : Context → Except Misuse Context}
    (h : ∀ c, k s.context = .ok c → C.Leads s (s.enter fun _ => c))
    (hmisuse : ∀ m, k s.context = .error m → C.Fails (.misuse m)) :
    C.Follows s (Action.changeContext k) fun _ _ => True := by
  refine context_bind ?_
  split
  · next c hc => exact modifyContext (h c hc)
  · next m hm => exact throw hs (hmisuse m hm)

/-! ## Failures that are caught -/

theorem observe (hx : C.Follows s x P) : C.Follows s (Action.observe x) fun _ _ => True := by
  refine ⟨?_, fun _ _ => trivial, fun e he => ?_⟩
  · rw [Action.observe_session]
    exact hx.leads
  · have hfails := hx.fails
    rcases hxs : x s with ⟨e' | a, s'⟩
    · rw [hxs] at hfails
      cases e' with
      | misuse m =>
        rw [Action.observe_of_misuse hxs] at he
        cases he
        exact hfails _ rfl
      | _ =>
        rw [Action.observe_of_error hxs rfl] at he
        cases he
    · rw [Action.observe_of_ok hxs] at he
      cases he

theorem tryCatch {k : Failure → Action ρ α} (hs : C.Holds s) (hx : C.Follows s x P)
    (hk : ∀ e s', C.Holds s' → C.Leads s s' → C.Fails e → C.Follows s' (k e) P) :
    C.Follows s (tryCatch x k : Action ρ α) P := by
  obtain ⟨hleads, hres, hfails⟩ := hx
  rcases hxs : x s with ⟨e | a, s'⟩
  · rw [hxs] at hleads hfails
    have h := hk e s' (C.holds hs hleads) hleads (hfails e rfl)
    refine ⟨?_, ?_, ?_⟩
    all_goals rw [Action.tryCatch_of_error hxs]
    · exact C.trans hs hleads h.leads
    · exact h.result
    · exact h.fails
  · rw [hxs] at hleads hres
    refine ⟨?_, ?_, ?_⟩
    all_goals rw [Action.tryCatch_of_ok hxs]
    · exact hleads
    · exact hres
    · rintro _ ⟨⟩

/-- What a trial does after a failure is to restore the marks that were taken before. -/
theorem trial (hs : C.Holds s) (hx : C.Follows s x P)
    (hrestore : ∀ s', C.Holds s' → C.Leads s s' →
      C.Follows s' (Action.restore s.context.marks) fun _ _ => True) :
    C.Follows s (Action.trial x) P := by
  refine context_bind (tryCatch hs hx fun e s' hs' hleads he => ?_)
  dsimp only
  split
  · exact bind hs' (hrestore s' hs' hleads) fun _ _ hs'' _ _ _ => throw hs'' he
  · exact throw hs' he

/-! ## Frames -/

theorem within (hC : C.Frames) (hs : C.Holds s) {f : Frame}
    (hx : C.Follows (s.enter f.enter) x P) : C.Follows s (Action.within f x) P :=
  ⟨hC.leave f hs hx.leads, hx.result, hx.fails⟩

end Follows
end Course
end SemanticCore
