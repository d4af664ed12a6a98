import SemanticCore.Proofs.Template.Deduction
import SemanticCore.Template.Specialization

/-!
# Specializing adds a function

A specialization is built through the constructors, from the arguments of a substitution and the
nodes of the template.  So if the arguments are nodes of the graph, specializing adds to the graph
and returns a function of it, or fails.
-/

set_option autoImplicit false
namespace SemanticCore

open SemanticCore.Graph

variable {g : Graph}

/-- The return type of a pattern is in the graph. -/
theorem Graph.WellFormed.contains_functionPattern? (hg : g.WellFormed) {d : DeclHandle}
    {params : List DeclHandle} {ret : TypeHandle} (h : g.functionPattern? d = some (params, ret)) :
    g.contains ret = true := by
  rw [functionPattern?] at h
  split at h
  · next pattern _ _ =>
    split at h
    · next t ps defn hf =>
      obtain ⟨r, hr, heq⟩ := Option.map_eq_some_iff.1 h
      cases heq
      refine hg.contains_functionRet? (hg.contains_declaredType? (d := pattern) ?_) hr
      rw [declaredType?, hf]
    · cases h
  · cases h

/-- What a list of computations returns is returned by one of them each. -/
theorem exists_of_mapM_eq_ok {α β ε : Type} {f : α → Except ε β} {as : List α} {bs : List β}
    (h : as.mapM f = .ok bs) : ∀ b ∈ bs, ∃ a ∈ as, f a = .ok b := by
  induction as generalizing bs with
  | nil =>
    cases h
    exact fun b hb => by cases hb
  | cons a as ih =>
    rw [List.mapM_cons] at h
    cases ha : f a with
    | error e => rw [ha] at h; cases h
    | ok b =>
      cases hrest : as.mapM f with
      | error e => rw [ha, hrest] at h; cases h
      | ok cs =>
        rw [ha, hrest] at h
        cases h
        refine List.forall_mem_cons.2 ⟨⟨a, List.mem_cons_self, ha⟩, fun c hc => ?_⟩
        obtain ⟨x, hx, hfx⟩ := ih hrest c hc
        exact ⟨x, List.mem_cons_of_mem a hx, hfx⟩

/-- The arguments of a substitution that fits the graph are in it. -/
theorem Substitution.Fits.args {s : Substitution} (hs : s.Fits g) {args : List Term}
    (h : s.args = .ok args) : ∀ a ∈ args, a.Fits g := by
  intro a ha
  obtain ⟨p, -, hp⟩ := exists_of_mapM_eq_ok h a ha
  cases hget : s.get? p with
  | none => rw [hget] at hp; cases hp
  | some b => rw [hget] at hp; cases hp; exact hs p _ hget

theorem Attempt.Makes.specializeParam (hg : g.WellFormed) {s : Substitution} (hs : s.Fits g)
    (param : DeclHandle) : Attempt.Makes g (Build.specializeParam s param) := by
  refine .get_bind ?_
  split
  · exact .throw _
  · next t ht =>
    have hd := contains_of_objectParamType? ht
    refine .get_bind ?_
    refine .bind hg (.lift (Build.Makes.substitute hg hs (hg.contains_objectParamType? ht)))
      fun u g₁ hgrow _ hu => ?_
    exact .lift (Build.Makes.objectParam (hgrow.contains (hg.placed param hd).1) hu)

/-- **Specializing gives a function of the graph, or fails.** -/
theorem Attempt.Makes.specialize (hg : g.WellFormed) (template : DeclHandle) {s : Substitution}
    (hs : s.Fits g) : Attempt.Makes g (Build.specialize template s) := by
  refine .get_bind ?_
  split
  · next params ret hpattern =>
    have hret := hg.contains_functionPattern? hpattern
    split
    · next args hargs =>
      refine .pure_bind (.bind hg (templateName (hs.args hargs)).adapt fun n g₁ hgrow₁ hg₁ hn => ?_)
      have hparams := Attempt.Yields.mapM (P := fun (d : DeclHandle) g' => g'.contains d = true)
        (fun h hd => h.contains hd) params hg₁ fun p _ g' hgrow hg' =>
          specializeParam hg' (hs.extend (hgrow₁.trans hgrow).extends) p
      refine .bind hg₁ hparams fun ps g₂ hgrow₂ hg₂ _ => ?_
      have hgrow := hgrow₁.trans hgrow₂
      refine .bind hg₂ (.lift (Build.Makes.substitute hg₂ (hs.extend hgrow.extends)
        (hgrow.contains hret))) fun r g₃ hgrow₃ hg₃ hr => ?_
      refine .bind hg₃ (functionDecl hg₃ (hgrow₃.contains (hgrow₂.contains hn)) hr).adapt
        fun spec g₄ _ hg₄ hspec => ?_
      refine .bind hg₄ (.lift (.setContexts ps hg₄ hspec)) fun _ g₅ hgrow₅ hg₅ _ => .get_bind ?_
      have hspec₅ := hgrow₅.contains hspec
      split
      · next context hcontext =>
        refine .bind hg₅ (.lift (.setContext spec (hg₅.contains_context hcontext)))
          fun _ g₆ hgrow₆ _ _ => ?_
        exact .pure (hgrow₆.contains hspec₅)
      · exact .pure hspec₅
    · exact .throw_bind _
  · exact .throw _

end SemanticCore
