import SemanticCore.Proofs.Action.Reachable

/-!
# Deduction finds the solution

The parameters of a function and the arguments of a call pose equations between type trees, with
the template parameters as unknowns.  In every graph that can be reached, deduction by structure
succeeds exactly if these equations have a solution and the parameters that they leave open have
defaults, and then it returns the solution, in whatever order the equations are posed.
-/

set_option autoImplicit false
namespace SemanticCore
namespace Graph

variable {g : Graph}

/-- **Deduction finds the solution of the equations of a call, if there is one.** -/
theorem deduction_finds_solution (hg : g.Reachable) {tparams params : List DeclHandle}
    {args : List ExprHandle} (ht : ∀ d ∈ tparams, g.contains d = true)
    (ha : ∀ a ∈ args, g.contains a = true) :
    ((∃ s g', Oracle.structural.deduce tparams params args g = (.ok s, g')) ↔
      params.length = args.length ∧ (∀ p ∈ params, ∃ t, g.objectParamType? p = some t) ∧
        (∃ θ, g.IsSolution tparams params args θ) ∧
          ∀ d ∈ tparams, (∀ p ∈ params, ¬ (g.paramTree p).Mentions d) →
            ∃ t, g.typeDefault? d = some t) ∧
    ∀ s g', Oracle.structural.deduce tparams params args g = (.ok s, g') →
      (∀ d ∈ tparams, s.isBound d = true) ∧
      (∀ θ, g.IsSolution tparams params args θ → ∀ d ∈ tparams,
        (∃ p ∈ params, (g.paramTree p).Mentions d) → s.type? d = some (θ d)) ∧
      ∀ params' args', params'.length = args'.length →
        (params.zip args).Perm (params'.zip args') →
          ∃ s', Oracle.structural.deduce tparams params' args' g = (.ok s', g') ∧
            ∀ d, s'.get? d = s.get? d := by
  have hw := hg.wellFormed
  refine ⟨hw.deduce_iff ht ha, fun s g' h => ?_⟩
  obtain ⟨hbound, hsol⟩ := hw.deduce_solution ha h
  refine ⟨hbound, hsol, fun params' args' hlen' hperm => ?_⟩
  have hlen := (Build.deduce_ok h).1
  have hzip : ∀ {ps : List DeclHandle} {as : List ExprHandle}, ps.length = as.length →
      (ps.zip as).map Prod.fst = ps ∧ (ps.zip as).map Prod.snd = as := fun h =>
    ⟨List.map_fst_zip (Nat.le_of_eq h), List.map_snd_zip (Nat.le_of_eq h.symm)⟩
  have hargs : ∀ e ∈ params.zip args, g.contains e.2 = true := fun e he =>
    ha e.2 (List.of_mem_zip he).2
  have hrun : Build.deduce tparams ((params.zip args).map Prod.fst)
      ((params.zip args).map Prod.snd) g = (.ok s, g') := by
    rw [(hzip hlen).1, (hzip hlen).2]
    exact h
  obtain ⟨s', hrun', hget⟩ := hw.deduce_perm hperm hargs hrun
  rw [(hzip hlen').1, (hzip hlen').2] at hrun'
  exact ⟨s', hrun', hget⟩

/-- The graph of a template parameter `T`, which is its declaration 1, of a function parameter of
type `T`, its declaration 2, and of a literal, its expression 0. -/
def identityCall : Graph :=
  let build : Build Unit := do
    let d ← Build.typeParam .globalName none
    if let .ok t ← (Build.typenameType d).run then
      let _ ← Build.objectParam .globalName t
      let _ ← Build.intLiteral 3
  (build (.initial .empty 32)).2

theorem identityCall_reachable : identityCall.Reachable := by
  have hinitial := Reachable.initial .empty 32
  have hparam : (Build.typeParam .globalName none (initial .empty 32)).2.Reachable :=
    hinitial.operation (.typeParam hinitial.wellFormed.globalName (by rintro _ ⟨⟩))
  have hfits : (TypeForm.typename ⟨1⟩).Fits
      (Build.typeParam .globalName none (initial .empty 32)).2 := rfl
  have htype := hparam.operation (.typenameType (d := ⟨1⟩) rfl)
  have hobject := htype.operation
    (.objectParam htype.wellFormed.globalName (Build.Makes.type hfits).2)
  exact hobject.operation (.intLiteral 3)

/-- The parameter `T` is bound to `int`, the type 4, and nothing else solves the equation. -/
theorem deduction_finds_solution_identityCall :
    identityCall.Reachable ∧ (∀ d ∈ [(⟨1⟩ : DeclHandle)], identityCall.contains d = true) ∧
    (∀ a ∈ [(⟨0⟩ : ExprHandle)], identityCall.contains a = true) ∧
    (Oracle.structural.deduce [⟨1⟩] [⟨2⟩] [⟨0⟩] identityCall).1 =
      .ok ⟨[⟨1⟩], [(⟨1⟩, .type ⟨4⟩)]⟩ ∧
    identityCall.type ⟨4⟩ = .int true 32 ∧
    (∃ θ, identityCall.IsSolution [⟨1⟩] [⟨2⟩] [⟨0⟩] θ) ∧
    ∀ θ, identityCall.IsSolution [⟨1⟩] [⟨2⟩] [⟨0⟩] θ → θ ⟨1⟩ = ⟨4⟩ := by
  have ht : ∀ d ∈ [(⟨1⟩ : DeclHandle)], identityCall.contains d = true := by
    rintro d (_ | ⟨_, ⟨⟩⟩)
    rfl
  have ha : ∀ a ∈ [(⟨0⟩ : ExprHandle)], identityCall.contains a = true := by
    rintro a (_ | ⟨_, ⟨⟩⟩)
    rfl
  have hok : (Oracle.structural.deduce [⟨1⟩] [⟨2⟩] [⟨0⟩] identityCall).1 =
      .ok ⟨[⟨1⟩], [(⟨1⟩, .type ⟨4⟩)]⟩ := by
    decide +kernel
  obtain ⟨hiff, hbinds⟩ :=
    @deduction_finds_solution identityCall identityCall_reachable [⟨1⟩] [⟨2⟩] [⟨0⟩] ht ha
  obtain ⟨-, -, hsolution, -⟩ := hiff.1 ⟨_, _, Prod.ext hok rfl⟩
  refine ⟨identityCall_reachable, ht, ha, hok, by decide +kernel, hsolution, fun θ hθ => ?_⟩
  have hparam : identityCall.paramType ⟨2⟩ = ⟨3⟩ := by decide +kernel
  have htype : identityCall.type ⟨3⟩ = .typename ⟨1⟩ := by decide +kernel
  have hmentions : (identityCall.paramTree ⟨2⟩).Mentions ⟨1⟩ := by
    rw [paramTree, hparam, identityCall_reachable.wellFormed.typeTree_eq rfl, htype]
    exact .here
  have hbound := (hbinds _ _ (Prod.ext hok rfl)).2.1 θ hθ ⟨1⟩ List.mem_cons_self
    ⟨⟨2⟩, List.mem_cons_self, hmentions⟩
  exact (Option.some.inj hbound).symm

end Graph
end SemanticCore
