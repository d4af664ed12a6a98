import SemanticCore.Action.Call
import SemanticCore.Action.Declaration

/-!
# One step of an action

An action is taken apart step by step: what it does is what its first step does, and what the rest
does from there on if the first step succeeds.  After a failure the marks of a trial are restored.
-/

set_option autoImplicit false
namespace SemanticCore.Action

variable {ρ α β : Type} {s : Session ρ} {x : Action ρ α} {f : α → Action ρ β}

theorem bind_of_ok {a : α} {s' : Session ρ} (h : x s = (.ok a, s')) : (x >>= f) s = f a s' := by
  simp only [Bind.bind, ExceptT.bind, ExceptT.mk, StateT.bind, h]
  rfl

theorem bind_of_error {e : Failure} {s' : Session ρ} (h : x s = (.error e, s')) :
    (x >>= f) s = (.error e, s') := by
  simp only [Bind.bind, ExceptT.bind, ExceptT.mk, StateT.bind, h]
  rfl

theorem context_bind (f : Context → Action ρ β) : (context >>= f) s = f s.context s :=
  rfl

theorem build_of_eq {y : Build α} {a : α} {g : Graph} (h : y s.graph = (a, g)) :
    build y s = (.ok a, { s with graph := g }) := by
  change (Except.ok (y s.graph).1, { s with graph := (y s.graph).2 }) = _
  rw [h]

theorem build_bind (y : Build α) (f : α → Action ρ β) :
    (build y >>= f) s = f (y s.graph).1 { s with graph := (y s.graph).2 } :=
  bind_of_ok (build_of_eq rfl)

theorem attempt_of_ok {y : Attempt SemanticError α} {a : α} {g : Graph}
    (h : y s.graph = (.ok a, g)) : attempt y s = (.ok a, { s with graph := g }) :=
  bind_of_ok (build_of_eq h)

theorem attempt_of_error {y : Attempt SemanticError α} {e : SemanticError} {g : Graph}
    (h : y s.graph = (.error e, g)) : attempt y s = (.error (.error e), { s with graph := g }) :=
  bind_of_ok (build_of_eq h)

theorem restore_of_ok {m : Marks} {c : Context} (h : s.context.restore m = .ok c) :
    restore m s = (.ok (), { s with context := c }) := by
  rw [restore, changeContext, context_bind, h]
  rfl

theorem restore_of_error {m : Marks} {e : Misuse} (h : s.context.restore m = .error e) :
    restore m s = (.error (.misuse e), s) := by
  rw [restore, changeContext, context_bind, h]
  rfl

theorem tryCatch_of_ok {k : Failure → Action ρ α} {a : α} {s' : Session ρ}
    (h : x s = (.ok a, s')) : (tryCatch x k : Action ρ α) s = (.ok a, s') := by
  simp only [tryCatch, tryCatchThe, MonadExceptOf.tryCatch, ExceptT.tryCatch, ExceptT.mk, Bind.bind,
    StateT.bind, h]
  rfl

theorem tryCatch_of_error {k : Failure → Action ρ α} {e : Failure} {s' : Session ρ}
    (h : x s = (.error e, s')) : (tryCatch x k : Action ρ α) s = k e s' := by
  simp only [tryCatch, tryCatchThe, MonadExceptOf.tryCatch, ExceptT.tryCatch, ExceptT.mk, Bind.bind,
    StateT.bind, h]

theorem trial_of_ok {a : α} {s' : Session ρ} (h : x s = (.ok a, s')) : trial x s = (.ok a, s') :=
  tryCatch_of_ok h

/-- After a failure that cannot be recovered from, the context stays as it is. -/
theorem trial_of_unrecoverable {e : Failure} {s' : Session ρ} (h : x s = (.error e, s'))
    (he : e.isRecoverable = false) : trial x s = (.error e, s') := by
  refine (tryCatch_of_error h).trans ?_
  simp only [he]
  rfl

/-- After a failure that can be recovered from, the marks are restored. -/
theorem trial_of_recoverable {e : Failure} {s' : Session ρ} {c : Context}
    (h : x s = (.error e, s')) (he : e.isRecoverable = true)
    (hc : s'.context.restore s.context.marks = .ok c) :
    trial x s = (.error e, { s' with context := c }) := by
  refine (tryCatch_of_error h).trans ?_
  simp only [he, if_true]
  exact (bind_of_ok (restore_of_ok hc)).trans rfl

/-- What a trial leaves is what its body has left, or that with the marks restored. -/
theorem trial_session (x : Action ρ α) (s : Session ρ) :
    (trial x s).2 = (x s).2 ∨ (trial x s).2 = (restore s.context.marks (x s).2).2 := by
  rcases hx : x s with ⟨e | a, s'⟩
  · cases he : e.isRecoverable with
    | false => exact .inl (congrArg Prod.snd (trial_of_unrecoverable hx he))
    | true =>
      refine .inr ((congrArg Prod.snd (tryCatch_of_error hx)).trans ?_)
      simp only [he, if_true]
      rcases hr : restore s.context.marks s' with ⟨e' | u, s''⟩
      · rw [bind_of_error hr]
      · rw [bind_of_ok hr]
        rfl
  · exact .inl (congrArg Prod.snd (trial_of_ok hx))

end SemanticCore.Action
