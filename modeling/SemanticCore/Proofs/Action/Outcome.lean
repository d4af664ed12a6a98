import SemanticCore.Proofs.Action.Extension

/-!
# How an action ends

`Action.Outcome E s x Q` says of the action `x`, started in the session `s`: if it succeeds, its
result and the session that it ends in satisfy `Q`, and if it fails, the session that it ends in
satisfies `E`.  The rules take an action apart step by step.
-/

set_option autoImplicit false
namespace SemanticCore.Action

variable {ρ α β : Type} {E : Session ρ → Prop} {s : Session ρ} {x : Action ρ α}
  {Q : α → Session ρ → Prop}

/-- The action succeeds with `Q`, or fails with `E`. -/
def Outcome (E : Session ρ → Prop) (s : Session ρ) (x : Action ρ α) (Q : α → Session ρ → Prop) :
    Prop :=
  match x s with
  | (.ok a, s') => Q a s'
  | (.error _, s') => E s'

namespace Outcome

theorem of_ok (h : Outcome E s x Q) {a : α} {s' : Session ρ} (hx : x s = (.ok a, s')) : Q a s' := by
  rwa [Outcome, hx] at h

theorem mono {R : α → Session ρ → Prop} (h : Outcome E s x R) (hQ : ∀ a s', R a s' → Q a s') :
    Outcome E s x Q := by
  rcases hx : x s with ⟨e | a, s'⟩
  · rw [Outcome, hx] at h ⊢
    exact h
  · rw [Outcome, hx] at h ⊢
    exact hQ a s' h

theorem pure {a : α} (h : Q a s) : Outcome E s (Pure.pure a) Q :=
  h

theorem throw (e : Failure) (h : E s) : Outcome E s (MonadExcept.throw e) Q :=
  h

theorem bind {R : α → Session ρ → Prop} {Q : β → Session ρ → Prop} {f : α → Action ρ β}
    (hx : Outcome E s x R) (hf : ∀ a s', R a s' → Outcome E s' (f a) Q) :
    Outcome E s (x >>= f) Q := by
  rcases hxs : x s with ⟨e | a, s'⟩
  · rw [Outcome, hxs] at hx
    rwa [Outcome, bind_of_error hxs]
  · rw [Outcome, bind_of_ok hxs]
    exact hf a s' (hx.of_ok hxs)

theorem graph_bind {f : Graph → Action ρ α} (h : Outcome E s (f s.graph) Q) :
    Outcome E s (Action.graph >>= f) Q :=
  h

theorem context_bind {f : Context → Action ρ α} (h : Outcome E s (f s.context) Q) :
    Outcome E s (Action.context >>= f) Q :=
  h

theorem build {x : Build α} (h : Q (x s.graph).1 { s with graph := (x s.graph).2 }) :
    Outcome E s (Action.build x) Q :=
  h

/-- What was built by an attempt that failed stays in the graph. -/
theorem attempt {x : Attempt SemanticError α} (hE : ∀ g, E { s with graph := g })
    (h : ∀ a g, x s.graph = (.ok a, g) → Q a { s with graph := g }) :
    Outcome E s (Action.attempt x) Q := by
  refine bind (R := fun r s' => r = (x s.graph).1 ∧ s' = { s with graph := (x s.graph).2 })
    (build ⟨rfl, rfl⟩) ?_
  rintro (e | a) _ ⟨hr, rfl⟩
  · exact throw _ (hE _)
  · exact pure (h a _ (Prod.ext hr.symm rfl))

theorem construct {x : Attempt BuildError α} (hE : ∀ g, E { s with graph := g })
    (h : ∀ a g, x s.graph = (.ok a, g) → Q a { s with graph := g }) :
    Outcome E s (Action.construct x) Q := by
  refine attempt hE fun a g hg => h a g ?_
  change ((x s.graph).1.mapError SemanticError.ofBuild, (x s.graph).2) = _ at hg
  rcases hx : x s.graph with ⟨e | a', g'⟩
  · rw [hx] at hg
    cases hg
  · rw [hx] at hg
    cases hg
    rfl

end Outcome
end SemanticCore.Action
