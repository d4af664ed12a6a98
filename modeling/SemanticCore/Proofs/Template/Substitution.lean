import SemanticCore.Proofs.Graph.Constructor
import SemanticCore.Template.Substitution

/-!
# Substitution adds types only

Substituting rebuilds a type through the constructors, so what it returns is again a type of the
graph, and nothing but types is added on the way.  Which type is returned depends on the arguments
that the substitution gives, and not on the order in which they were found
(`Build.substitute_congr`).
-/

set_option autoImplicit false
namespace SemanticCore

open SemanticCore.Graph

variable {g g' : Graph}

/-- The arguments that the substitution gives are in the graph. -/
def Substitution.Fits (g : Graph) (s : Substitution) : Prop :=
  ∀ d a, s.get? d = some a → a.Fits g

theorem Substitution.Fits.extend (h : g.Extends g') {s : Substitution} (hs : s.Fits g) :
    s.Fits g' :=
  fun d a hd => (hs d a hd).extend h

theorem Substitution.Fits.type? {s : Substitution} (hs : s.Fits g) {d : DeclHandle}
    {t : TypeHandle} (h : s.type? d = some t) : g.contains t = true := by
  rw [Substitution.type?] at h
  split at h
  · next u hu =>
    cases h
    exact hs d _ hu
  · cases h

/-- Substituting into a type gives a type. -/
theorem Build.Makes.substitute (hg : g.WellFormed) {s : Substitution} (hs : s.Fits g)
    {t : TypeHandle} (ht : g.contains t = true) : Build.Makes g (Build.substitute s t) := by
  obtain ⟨i⟩ := t
  induction i using Nat.strongRecOn generalizing g with
  | ind i ih =>
    -- every component is substituted into, in whatever graph its turn comes
    have hpart : ∀ x ∈ (g.type ⟨i⟩).components, ∀ g', g.Grows g' → g'.WellFormed →
        Build.Makes g' (if _ : x < ⟨i⟩ then Build.substitute s x else Pure.pure x) := by
      intro x hx g' hgrow hg'
      have hlt : x < (⟨i⟩ : TypeHandle) := (hg.placed _ ht).2.1 x hx
      rw [dif_pos hlt]
      exact ih x.index hlt hg' (hs.extend hgrow.extends)
        (hgrow.contains (fits_components (hg.placed _ ht).1 x hx))
    rw [Build.substitute]
    refine .get_bind ?_
    split
    · refine .get_bind ?_
      cases hf : g.type ⟨i⟩ with
      | typename d =>
        refine .pure ?_
        cases hd : s.type? d with
        | none => exact ht
        | some u => exact hs.type? hd
      | function params ret =>
        rw [hf] at hpart
        have hparams := Build.Yields.mapM (P := fun (p : TypeHandle) g' => g'.contains p = true)
          (fun h hp => h.contains hp) params hg fun x hx => hpart x (List.mem_append_left _ hx)
        refine .bind hg hparams fun ps g₁ hgrow₁ hg₁ hps => ?_
        have hret := hpart ret (List.mem_append_right _ List.mem_cons_self) g₁ hgrow₁ hg₁
        refine .bind hg₁ hret fun r g₂ hgrow₂ hg₂ hr => ?_
        exact Build.Makes.functionTypeOf (fun p hp => hgrow₂.contains (hps p hp)) hr
      | qualified base quals =>
        rw [hf] at hpart
        refine .bind hg (hpart base List.mem_cons_self g (.refl g) hg) fun b g₁ _ hg₁ hb => ?_
        exact Build.Makes.qualifiedType hg₁ quals hb
      | pointer x =>
        rw [hf] at hpart
        refine .bind hg (hpart x List.mem_cons_self g (.refl g) hg) fun y g₁ _ hg₁ hy => ?_
        exact Build.Makes.type (f := .pointer y) hy
      | reference x =>
        rw [hf] at hpart
        refine .bind hg (hpart x List.mem_cons_self g (.refl g) hg) fun y g₁ _ hg₁ hy => ?_
        exact Build.Makes.type (f := .reference y) hy
      | sequence x =>
        rw [hf] at hpart
        refine .bind hg (hpart x List.mem_cons_self g (.refl g) hg) fun y g₁ _ hg₁ hy => ?_
        exact Build.Makes.type (f := .sequence y) hy
      | _ => exact .pure ht
    · exact .pure ht

/-- What is substituted depends on the arguments only. -/
theorem Build.substitute_congr {s s' : Substitution} (h : ∀ d, s.type? d = s'.type? d)
    (t : TypeHandle) : Build.substitute s t = Build.substitute s' t := by
  obtain ⟨i⟩ := t
  induction i using Nat.strongRecOn with
  | ind i ih =>
    have hpart : ∀ x : TypeHandle, (if _ : x < ⟨i⟩ then Build.substitute s x
          else (Pure.pure x : Build TypeHandle)) =
        if _ : x < ⟨i⟩ then Build.substitute s' x else Pure.pure x := by
      intro x
      split
      · next hx => exact ih x.index hx
      · rfl
    rw [Build.substitute, Build.substitute]
    simp only [h, hpart]

end SemanticCore
