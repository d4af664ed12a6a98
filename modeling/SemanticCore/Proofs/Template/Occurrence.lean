import SemanticCore.Proofs.Graph.Traversal
import SemanticCore.Proofs.Template.Composition
import SemanticCore.Proofs.Template.Freshness
import SemanticCore.Proofs.Type.Mention

/-!
# Template parameters of a substituted type

Which template parameters are left in a type after substituting can be read off the type and the
arguments: those that are bound to no type, and those of the arguments that were used.  Nothing is
lost with the qualifiers that disappear over a reference, since qualifiers mention nothing.

The flags of a type let substitution return early from a type that mentions no parameter at all.  A
type that mentions parameters, but none that is bound to a type, has no such flag: it is taken apart
and rebuilt, and what says that the same type comes out of it is that each of its components is in
normal form and that types are interned (`Graph.WellFormed.substitute_of_unbound`).

* `Graph.Reachable.occurs_substituted` — **the parameters that occur in a substituted type**, and
  that a type without a parameter to replace comes back as it is.
-/

set_option autoImplicit false
namespace SemanticCore
namespace Graph

variable {g : Graph} {s : Substitution} {t : TypeHandle}

/-- **What occurs after substituting**: a parameter of the type that stays, or a parameter of an
argument that was put in. -/
theorem WellFormed.mentions_substituted (hg : g.WellFormed) (hs : s.Fits g)
    (ht : g.contains t = true) (p : DeclHandle) :
    ((Build.substitute s t g).2.typeTree (Build.substitute s t g).1).Mentions p ↔
      (g.typeTree t).Mentions p ∧ s.type? p = none ∨
        ∃ d u, (g.typeTree t).Mentions d ∧ s.type? d = some u ∧ (g.typeTree u).Mentions p := by
  rw [(Build.Settles.substitute hg hs ht).yields.2.2, TypeTree.mentions_instantiate]
  constructor
  · rintro ⟨d, hd, hp⟩
    rw [Substitution.tree?] at hp
    cases hu : s.type? d with
    | none =>
      rw [hu] at hp
      obtain rfl := TypeTree.mentions_typename.1 hp
      exact .inl ⟨hd, hu⟩
    | some u =>
      rw [hu] at hp
      exact .inr ⟨d, u, hd, hu, hp⟩
  · rintro (⟨hp, hnone⟩ | ⟨d, u, hd, hu, hp⟩)
    · refine ⟨p, hp, ?_⟩
      rw [Substitution.tree?, hnone]
      exact .here
    · refine ⟨d, hd, ?_⟩
      rw [Substitution.tree?, hu]
      exact hp

/-- A qualified type is found again by the constructor of qualified types. -/
theorem WellFormed.qualifiedType_again (hg : g.WellFormed) {base : TypeHandle} {quals : Qualifiers}
    (ht : g.contains t = true) (hf : g.type t = .qualified base quals) :
    Build.qualifiedType base quals g = (t, g) := by
  obtain ⟨-, hr, hq, hnone⟩ := hg.fits_of_type ht hf
  rw [qualifiedType_plain quals hr hq, hnone]
  exact type_again ht hf

/-- **A type without a parameter to replace comes back as it is**, and nothing is added. -/
theorem WellFormed.substitute_of_unbound (hg : g.WellFormed) (ht : g.contains t = true)
    (h : ∀ d, (g.typeTree t).Mentions d → s.type? d = none) :
    Build.substitute s t g = (t, g) := by
  obtain ⟨i⟩ := t
  induction i using Nat.strongRecOn with
  | ind i ih =>
    have hpart : ∀ x ∈ (g.type ⟨i⟩).components, Build.substitute s x g = (x, g) := fun x hx =>
      ih x.index (hg.component_lt ht hx) (hg.contains_component ht hx) fun d hd =>
        h d ((hg.mentions_iff ht).2 (.inr ⟨x, hx, hd⟩))
    rw [hg.substitute_eq ht, Build.substituteStep, Build.get_bind]
    split
    · rw [Build.get_bind]
      cases hf : g.type ⟨i⟩ with
      | typename d =>
        have hnone := h d ((hg.mentions_iff ht).2 (.inl hf))
        dsimp only
        rw [hnone]
        rfl
      | function params ret =>
        rw [hf] at hpart
        have hparams : params.mapM (Build.substitute s) g = (params, g) :=
          Build.mapM_of_forall₂ (List.forall₂_same.2 fun x hx =>
            hpart x (List.mem_append_left _ hx))
        have hret := hpart ret (List.mem_append_right _ List.mem_cons_self)
        dsimp only
        rw [Build.bind_of_eq hparams, Build.bind_of_eq hret]
        exact type_again ht hf
      | qualified base quals =>
        rw [hf] at hpart
        dsimp only
        rw [Build.bind_of_eq (hpart base List.mem_cons_self)]
        exact hg.qualifiedType_again ht hf
      | pointer x | reference x | sequence x =>
        rw [hf] at hpart
        dsimp only
        rw [Build.bind_of_eq (hpart x List.mem_cons_self)]
        exact type_again ht hf
      | _ => rfl
    · rfl

/-- **The parameters that occur in a substituted type.**  A parameter occurs there if it occurs in
the type and is bound to no type, or if it occurs in the type that some parameter of the type is
bound to.  If no parameter of the type is bound to a type, then substituting returns the very same
type and leaves the graph as it is. -/
theorem Reachable.occurs_substituted (hg : g.Reachable) (hs : s.Fits g)
    (ht : g.contains t = true) :
    (∀ p, ((Build.substitute s t g).2.typeTree (Build.substitute s t g).1).Mentions p ↔
      (g.typeTree t).Mentions p ∧ s.type? p = none ∨
        ∃ d u, (g.typeTree t).Mentions d ∧ s.type? d = some u ∧ (g.typeTree u).Mentions p) ∧
    ((∀ d, (g.typeTree t).Mentions d → s.type? d = none) → Build.substitute s t g = (t, g)) :=
  ⟨hg.wellFormed.mentions_substituted hs ht, hg.wellFormed.substitute_of_unbound ht⟩

/-- The trees of `const T` and of `volatile U`. -/
theorem twoParameters_typeTree :
    twoParameters.typeTree ⟨5⟩ = .qualified (.typename ⟨1⟩) .const ∧
      twoParameters.typeTree ⟨6⟩ = .qualified (.typename ⟨2⟩) .volatile := by
  have hg := twoParameters_reachable.wellFormed
  constructor
  · rw [hg.typeTree_eq rfl, show twoParameters.type ⟨5⟩ = .qualified ⟨3⟩ .const from rfl,
      TypeForm.tree, hg.typeTree_eq rfl]
    rfl
  · rw [hg.typeTree_eq rfl, show twoParameters.type ⟨6⟩ = .qualified ⟨4⟩ .volatile from rfl,
      TypeForm.tree, hg.typeTree_eq rfl]
    rfl

/-- With `volatile U` for `T`, only `U` occurs in what `const T` becomes; with `int&` for `U`,
`const T` comes back as it is. -/
theorem occurs_substituted_twoParameters :
    let s := (Substitution.ofParams [⟨1⟩]).put ⟨1⟩ ⟨6⟩
    let s' := (Substitution.ofParams [⟨2⟩]).put ⟨2⟩ ⟨8⟩
    twoParameters.Reachable ∧ s.Fits twoParameters ∧ s'.Fits twoParameters ∧
    twoParameters.contains (⟨5⟩ : TypeHandle) = true ∧
    (∀ p, ((Build.substitute s ⟨5⟩ twoParameters).2.typeTree
      (Build.substitute s ⟨5⟩ twoParameters).1).Mentions p ↔ p = ⟨2⟩) ∧
    Build.substitute s' ⟨5⟩ twoParameters = (⟨5⟩, twoParameters) := by
  intro s s'
  have hs : s.Fits twoParameters := (Substitution.fits_ofParams _ _).put _ rfl
  have hs' : s'.Fits twoParameters := (Substitution.fits_ofParams _ _).put _ rfl
  have hmentions : ∀ d, (twoParameters.typeTree ⟨5⟩).Mentions d ↔ d = ⟨1⟩ := fun d => by
    rw [twoParameters_typeTree.1, TypeTree.mentions_qualified, TypeTree.mentions_typename]
  refine ⟨twoParameters_reachable, hs, hs', rfl, fun p => ?_, ?_⟩
  · rw [(twoParameters_reachable.occurs_substituted hs rfl).1 p]
    constructor
    · rintro (⟨hp, hnone⟩ | ⟨d, u, hd, hu, hp⟩)
      · obtain rfl := (hmentions p).1 hp
        cases hnone
      · obtain rfl := (hmentions d).1 hd
        obtain rfl : u = ⟨6⟩ := (Option.some.inj hu).symm
        rwa [twoParameters_typeTree.2, TypeTree.mentions_qualified,
          TypeTree.mentions_typename] at hp
    · rintro rfl
      refine .inr ⟨⟨1⟩, ⟨6⟩, (hmentions _).2 rfl, rfl, ?_⟩
      rw [twoParameters_typeTree.2, TypeTree.mentions_qualified, TypeTree.mentions_typename]
  · refine (twoParameters_reachable.occurs_substituted hs' rfl).2 fun d hd => ?_
    obtain rfl := (hmentions d).1 hd
    rfl

end Graph
end SemanticCore
