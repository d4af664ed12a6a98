import SemanticCore.Proofs.Action.Reachable
import SemanticCore.Proofs.Template.Signature

/-!
# Composing substitutions

Substituting twice is substituting once, by the substitution that gives each parameter the argument
of the first one with the second one substituted into it (`Graph.Composes`).

This would be clear of trees that are only replaced.  Here the tree is put in normal form after each
step, and what the second step finds is not what the first one wrote: qualifiers may have been
merged into those of an argument, or lost over an argument that is a reference.  The reason why
nothing goes wrong is that adding qualifiers commutes with instantiation
(`TypeTree.instantiate_qualify`).  Then the law holds of trees
(`TypeTree.instantiate_instantiate`), and it holds of handles because types are interned.

* `Graph.Reachable.substitute_substitute` — **substituting twice gives the same type as substituting
  once by the composition**, whichever is done first.
* `Graph.evolves_compose` — the composition of two substitutions is there to be had: it takes one
  substitution for each parameter that the first one binds.
-/

set_option autoImplicit false
namespace SemanticCore

open SemanticCore.Graph

/-! ## Trees -/

namespace TypeTree

variable {σ₁ σ₂ : DeclHandle → Option TypeTree}

/-- **Adding qualifiers commutes with instantiation**, also where these disappear because what they
are added to becomes a reference. -/
theorem instantiate_qualify (σ : DeclHandle → Option TypeTree) (quals : Qualifiers) (t : TypeTree) :
    (t.qualify quals).instantiate σ = (t.instantiate σ).qualify quals := by
  cases hq : t.isQualified with
  | true =>
    cases t with
    | qualified base own => rw [qualify, instantiate, instantiate, qualify_qualify]
    | _ => cases hq
  | false =>
    cases hr : t.isReference with
    | true =>
      cases t with
      | reference target => rw [qualify, instantiate, qualify]
      | _ => cases hr
    | false =>
      rw [qualify_of_plain quals hr hq]
      split
      · next hnone => rw [qualify_of_isNone hnone]
      · rw [instantiate]

/-- What instantiating by `σ₁` and then by `σ₂` puts in place of a parameter. -/
def composed (σ₁ σ₂ : DeclHandle → Option TypeTree) (d : DeclHandle) : Option TypeTree :=
  match σ₁ d with
  | some t => some (t.instantiate σ₂)
  | none => σ₂ d

/-- **Instantiating twice is instantiating once.** -/
theorem instantiate_instantiate (t : TypeTree) :
    (t.instantiate σ₁).instantiate σ₂ = t.instantiate (composed σ₁ σ₂) := by
  induction t using children_induction with
  | step t ih =>
    cases t with
    | typename d =>
      rw [instantiate, instantiate, composed]
      cases σ₁ d with
      | none => rw [Option.getD_none, instantiate]
      | some u => rfl
    | function params ret =>
      have hparams : ∀ p ∈ params,
          (p.instantiate σ₁).instantiate σ₂ = p.instantiate (composed σ₁ σ₂) := fun p hp =>
        ih p (List.mem_append_left _ hp)
      rw [instantiate, instantiate, instantiate, List.map_map,
        ih ret (List.mem_append_right _ List.mem_cons_self)]
      exact congrArg (function · _) (List.map_congr_left hparams)
    | qualified base quals =>
      rw [instantiate, instantiate_qualify, ih base List.mem_cons_self, instantiate]
    | pointer x | reference x | sequence x =>
      rw [instantiate, instantiate, instantiate, ih x List.mem_cons_self]
    | _ => simp only [instantiate]

end TypeTree

/-! ## The composition of two substitutions -/

variable {g g' : Graph} {s₁ s₂ s : Substitution} {t : TypeHandle}

/-- The substitution `s` gives a parameter the argument that `s₁` gives it, with `s₂` substituted,
if that is a type; to every other parameter it gives what `s₂` gives. -/
structure Graph.Composes (g : Graph) (s₁ s₂ s : Substitution) : Prop where
  bound : ∀ d u, s₁.type? d = some u → ∃ v, s.get? d = some (.type v) ∧ g.Substitutes s₂ u v
  other : ∀ d, s₁.type? d = none → s.get? d = s₂.get? d

namespace Substitution

theorem type?_of_get? {d : DeclHandle} {u : TypeHandle} (h : s.get? d = some (.type u)) :
    s.type? d = some u := by
  rw [type?, h]

/-- A parameter with a type as its argument is among those that are bound. -/
theorem mem_bindings_of_type? {d : DeclHandle} {u : TypeHandle} (h : s.type? d = some u) :
    d ∈ s.bindings.map Prod.fst := by
  by_contra hnot
  have hnone : s.get? d = none := List.lookup_eq_none_iff.2 fun e he =>
    bne_iff_ne.2 fun hd => hnot (hd ▸ List.mem_map_of_mem he)
  rw [type?, hnone] at h
  cases h

/-- The substitution with a type as the argument of a parameter. -/
def put (s : Substitution) (d : DeclHandle) (t : TypeHandle) : Substitution :=
  { s with bindings := (d, .type t) :: s.bindings }

theorem get?_put_self (d : DeclHandle) (t : TypeHandle) :
    (s.put d t).get? d = some (.type t) :=
  List.lookup_cons_self

theorem get?_put_of_ne {d d' : DeclHandle} (h : d' ≠ d) (t : TypeHandle) :
    (s.put d t).get? d' = s.get? d' := by
  rw [get?, put, List.lookup_cons, beq_eq_false_iff_ne.2 h]
  rfl

theorem fits_ofParams (g : Graph) (params : List DeclHandle) : (ofParams params).Fits g := by
  rintro d a ⟨⟩

theorem Fits.put (hs : s.Fits g) (d : DeclHandle) {t : TypeHandle} (ht : g.contains t = true) :
    (s.put d t).Fits g := by
  intro d' a ha
  by_cases h : d' = d
  · subst h
    cases (get?_put_self d' t).symm.trans ha
    exact ht
  · exact hs d' a ((get?_put_of_ne h t).symm.trans ha)

end Substitution

namespace Build

/-- Give a parameter the argument of the composition, if `s₁` binds it to a type. -/
def composeAt (s₁ s₂ : Substitution) (d : DeclHandle) (s : Substitution) : Build Substitution :=
  match s₁.type? d with
  | some u => do
    let v ← substitute s₂ u
    return s.put d v
  | none => pure s

/-- Give each of the parameters the argument of the composition, starting from what `s₂` gives. -/
def composeOn (s₁ s₂ : Substitution) : List DeclHandle → Build Substitution
  | [] => pure s₂
  | d :: ds => do
    let s ← composeOn s₁ s₂ ds
    composeAt s₁ s₂ d s

/-- The composition of two substitutions. -/
def compose (s₁ s₂ : Substitution) : Build Substitution :=
  composeOn s₁ s₂ (s₁.bindings.map Prod.fst)

/-- Substitute into a type, and then into the result. -/
def substituteTwice (s₁ s₂ : Substitution) (t : TypeHandle) : Build TypeHandle := do
  substitute s₂ (← substitute s₁ t)

end Build

namespace Graph

theorem Composes.extend (hg : g.WellFormed) (h : g.Extends g') (hs : g.Composes s₁ s₂ s) :
    g'.Composes s₁ s₂ s where
  bound d u hd := by
    obtain ⟨v, hv, hsub⟩ := hs.bound d u hd
    exact ⟨v, hv, hsub.extend hg h⟩
  other := hs.other

theorem Composes.fits (hg : g.WellFormed) (h₂ : s₂.Fits g) (hs : g.Composes s₁ s₂ s) :
    s.Fits g := by
  intro d a hd
  cases h : s₁.type? d with
  | none => exact h₂ d a ((hs.other d h).symm.trans hd)
  | some u =>
    obtain ⟨v, hv, hsub⟩ := hs.bound d u h
    cases hv.symm.trans hd
    exact (hsub.typeTree hg).1

/-- The trees that a composition puts in place of parameters. -/
theorem Composes.tree? (hg : g.WellFormed) (hs : g.Composes s₁ s₂ s) :
    s.tree? g = TypeTree.composed (s₁.tree? g) (s₂.tree? g) := by
  funext d
  rw [TypeTree.composed, Substitution.tree?, Substitution.tree?]
  cases h : s₁.type? d with
  | none => rw [Substitution.type?, hs.other d h]; rfl
  | some u =>
    obtain ⟨v, hv, hsub⟩ := hs.bound d u h
    rw [Substitution.type?_of_get? hv]
    exact congrArg some (hsub.typeTree hg).2

/-! ## The composition is there to be had -/

theorem Evolves.trans {g'' : Graph} (h : g.Evolves g') (h' : g'.Evolves g'') : g.Evolves g'' := by
  induction h' with
  | refl => exact h
  | operation _ hx ih => exact ih.operation hx
  | run _ hc hx ih => exact ih.run hc hx

/-- What has been found after some of the parameters: the composition on these, and the second
substitution elsewhere. -/
structure ComposesOn (g : Graph) (ds : List DeclHandle) (s₁ s₂ s : Substitution) : Prop where
  bound : ∀ d ∈ ds, ∀ u, s₁.type? d = some u →
    ∃ v, s.get? d = some (.type v) ∧ g.Substitutes s₂ u v
  other : ∀ d, d ∉ ds ∨ s₁.type? d = none → s.get? d = s₂.get? d

theorem ComposesOn.extend (hg : g.WellFormed) (h : g.Extends g') {ds : List DeclHandle}
    (hs : g.ComposesOn ds s₁ s₂ s) : g'.ComposesOn ds s₁ s₂ s where
  bound d hd u hu := by
    obtain ⟨v, hv, hsub⟩ := hs.bound d hd u hu
    exact ⟨v, hv, hsub.extend hg h⟩
  other := hs.other

/-- One more parameter. -/
theorem ComposesOn.step (hg : g.WellFormed) (h₁ : s₁.Fits g) (h₂ : s₂.Fits g)
    {ds : List DeclHandle} (hs : g.ComposesOn ds s₁ s₂ s) (d : DeclHandle) :
    g.Evolves (Build.composeAt s₁ s₂ d s g).2 ∧
      (Build.composeAt s₁ s₂ d s g).2.ComposesOn (d :: ds) s₁ s₂
        (Build.composeAt s₁ s₂ d s g).1 := by
  cases hd : s₁.type? d with
  | none =>
    rw [Build.composeAt, hd]
    refine ⟨.refl, fun d' hd' u hu => ?_, fun d' hd' => ?_⟩
    · rcases List.mem_cons.1 hd' with rfl | hmem
      · cases hd.symm.trans hu
      · exact hs.bound d' hmem u hu
    · refine hs.other d' (hd'.imp_left fun hnot hmem => hnot (List.mem_cons_of_mem _ hmem))
  | some u =>
    rw [Build.composeAt, hd]
    have hsub := (Build.Yields.substitutes hg h₂ (h₁.type? hd)).2.2
    have hev : g.Evolves (Build.substitute s₂ u g).2 :=
      .operation .refl (.substitute h₂ (h₁.type? hd))
    have hs' := hs.extend hg (hev.grows hg).extends
    refine ⟨hev, fun d' hd' u' hu' => ?_, fun d' hd' => ?_⟩
    · by_cases hne : d' = d
      · subst hne
        cases hd.symm.trans hu'
        exact ⟨_, Substitution.get?_put_self _ _, hsub⟩
      · obtain ⟨v, hv, hv'⟩ := hs'.bound d' ((List.mem_cons.1 hd').resolve_left hne) u' hu'
        exact ⟨v, (Substitution.get?_put_of_ne hne _).trans hv, hv'⟩
    · have hne : d' ≠ d := by
        rintro rfl
        rcases hd' with hnot | hnone
        · exact hnot List.mem_cons_self
        · cases hd.symm.trans hnone
      exact (Substitution.get?_put_of_ne hne _).trans
        (hs.other d' (hd'.imp_left fun hnot hmem => hnot (List.mem_cons_of_mem _ hmem)))

theorem composesOn_composeOn (hg : g.WellFormed) (h₁ : s₁.Fits g) (h₂ : s₂.Fits g)
    (ds : List DeclHandle) :
    g.Evolves (Build.composeOn s₁ s₂ ds g).2 ∧
      (Build.composeOn s₁ s₂ ds g).2.ComposesOn ds s₁ s₂ (Build.composeOn s₁ s₂ ds g).1 := by
  induction ds with
  | nil => exact ⟨.refl, fun d hd => (List.not_mem_nil hd).elim, fun _ _ => rfl⟩
  | cons d ds ih =>
    obtain ⟨hev, hs⟩ := ih
    have hgrow := hev.grows hg
    obtain ⟨hev', hs'⟩ := hs.step (hgrow.wellFormed hg) (h₁.extend hgrow.extends)
      (h₂.extend hgrow.extends) d
    exact ⟨hev.trans hev', hs'⟩

/-- **The composition of two substitutions is there to be had.** -/
theorem evolves_compose (hg : g.WellFormed) (h₁ : s₁.Fits g) (h₂ : s₂.Fits g) :
    g.Evolves (Build.compose s₁ s₂ g).2 ∧
      (Build.compose s₁ s₂ g).2.Composes s₁ s₂ (Build.compose s₁ s₂ g).1 := by
  obtain ⟨hev, hs⟩ := composesOn_composeOn hg h₁ h₂ (s₁.bindings.map Prod.fst)
  exact ⟨hev, fun d u hd => hs.bound d (Substitution.mem_bindings_of_type? hd) u hd,
    fun d hd => hs.other d (.inr hd)⟩

/-! ## Substituting twice -/

/-- The tree that is left when the arguments of both substitutions have been put into a type. -/
def composedTree (g : Graph) (s₁ s₂ : Substitution) (t : TypeHandle) : TypeTree :=
  (g.typeTree t).instantiate (TypeTree.composed (s₁.tree? g) (s₂.tree? g))

theorem WellFormed.composedTree_extend (hg : g.WellFormed) (h : g.Extends g') (h₁ : s₁.Fits g)
    (h₂ : s₂.Fits g) (ht : g.contains t = true) :
    g'.composedTree s₁ s₂ t = g.composedTree s₁ s₂ t := by
  rw [composedTree, composedTree, hg.typeTree_extend h ht, h₁.tree?_extend hg h,
    h₂.tree?_extend hg h]

/-- Substituting once, by the composition, gives this tree. -/
theorem Composes.yields_substitute (hg : g.WellFormed) (h₂ : s₂.Fits g)
    (hs : g.Composes s₁ s₂ s) (ht : g.contains t = true) :
    Build.Yields g (Build.substitute s t) fun u g' =>
      g'.contains u = true ∧ g'.typeTree u = g.composedTree s₁ s₂ t := by
  rw [composedTree, ← hs.tree? hg]
  exact (Build.Settles.substitute hg (hs.fits hg h₂) ht).yields

/-- Substituting twice gives this tree as well. -/
theorem WellFormed.yields_substituteTwice (hg : g.WellFormed) (h₁ : s₁.Fits g) (h₂ : s₂.Fits g)
    (ht : g.contains t = true) :
    Build.Yields g (Build.substituteTwice s₁ s₂ t) fun u g' =>
      g'.contains u = true ∧ g'.typeTree u = g.composedTree s₁ s₂ t := by
  refine .bind hg (Build.Settles.substitute hg h₁ ht).yields fun u g₁ hgrow hg₁ hu => ?_
  rw [composedTree, ← TypeTree.instantiate_instantiate, ← hu.2,
    ← h₂.tree?_extend hg hgrow.extends]
  exact (Build.Settles.substitute hg₁ (h₂.extend hgrow.extends) hu.1).yields

/-- **Substituting twice gives the same type as substituting once by the composition.**  Any
substitution will do that is the composition in what became of the graph, and either of the two may
be computed first. -/
theorem Reachable.substitute_substitute (hg : g.Reachable) (h₁ : s₁.Fits g) (h₂ : s₂.Fits g)
    (ht : g.contains t = true) :
    (g.Evolves (Build.compose s₁ s₂ g).2 ∧
      (Build.compose s₁ s₂ g).2.Composes s₁ s₂ (Build.compose s₁ s₂ g).1) ∧
    ∀ g₁ s, g.Evolves g₁ → g₁.Composes s₁ s₂ s →
      (∀ g₂, (Build.substituteTwice s₁ s₂ t g₁).2.Evolves g₂ →
        (Build.substitute s t g₂).1 = (Build.substituteTwice s₁ s₂ t g₁).1) ∧
      ∀ g₂, (Build.substitute s t g₁).2.Evolves g₂ →
        (Build.substituteTwice s₁ s₂ t g₂).1 = (Build.substitute s t g₁).1 := by
  refine ⟨evolves_compose hg.wellFormed h₁ h₂, fun g₁ s hev hs => ?_⟩
  have hgrow := hev.grows hg.wellFormed
  have hg₁ := hgrow.wellFormed hg.wellFormed
  have h₁ := h₁.extend hgrow.extends
  have h₂ := h₂.extend hgrow.extends
  have ht := hgrow.contains ht
  have htwice := hg₁.yields_substituteTwice h₁ h₂ ht
  have honce := hs.yields_substitute hg₁ h₂ ht
  constructor
  · intro g₂ hev₂
    have hgrow₂ := hev₂.grows (htwice.1.wellFormed hg₁)
    have hext := htwice.1.extends.trans hgrow₂.extends
    have hlater := (hs.extend hg₁ hext).yields_substitute (hgrow₂.wellFormed
      (htwice.1.wellFormed hg₁)) (h₂.extend hext) (hext.contains ht)
    rw [hg₁.composedTree_extend hext h₁ h₂ ht] at hlater
    exact hg₁.same_type htwice hgrow₂ hlater
  · intro g₂ hev₂
    have hgrow₂ := hev₂.grows (honce.1.wellFormed hg₁)
    have hext := honce.1.extends.trans hgrow₂.extends
    have hlater := (hgrow₂.wellFormed (honce.1.wellFormed hg₁)).yields_substituteTwice
      (h₁.extend hext) (h₂.extend hext) (hext.contains ht)
    rw [hg₁.composedTree_extend hext h₁ h₂ ht] at hlater
    exact hg₁.same_type honce hgrow₂ hlater

/-- A graph with the types `const T`, `volatile U` and `int&`, for type parameters `T` and `U`. -/
def twoParameters : Graph :=
  let build : Build Unit := do
    let _ ← Build.typeParam .globalName none
    let _ ← Build.typeParam .globalName none
    let t ← Build.type (.typename ⟨1⟩)
    let u ← Build.type (.typename ⟨2⟩)
    let _ ← Build.qualifiedType t .const
    let _ ← Build.qualifiedType u .volatile
    let i ← Build.intType
    let _ ← Build.referenceType i
  (build (.initial .empty 32)).2

theorem twoParameters_reachable : twoParameters.Reachable := by
  have hparam : ∀ {g : Graph}, g.Reachable → (Build.typeParam .globalName none g).2.Reachable :=
    fun hg => hg.operation (.typeParam hg.wellFormed.globalName (by rintro _ ⟨⟩))
  have hparams := hparam (hparam (.initial .empty 32))
  have hnames := (hparams.operation (.typenameType (d := ⟨1⟩) rfl)).operation
    (.typenameType (d := ⟨2⟩) rfl)
  have hqualified := (hnames.operation (.qualifiedType (t := ⟨3⟩) .const rfl)).operation
    (.qualifiedType (t := ⟨4⟩) .volatile rfl)
  exact (hqualified.operation .intType).operation (.referenceType (t := ⟨7⟩) rfl)

/-- Here `T` becomes `volatile U`, which gives `const volatile U`, and then `U` becomes `int&`, on
which the qualifiers disappear. -/
theorem substitute_substitute_twoParameters :
    let s₁ := (Substitution.ofParams [⟨1⟩]).put ⟨1⟩ ⟨6⟩
    let s₂ := (Substitution.ofParams [⟨2⟩]).put ⟨2⟩ ⟨8⟩
    twoParameters.Reachable ∧ s₁.Fits twoParameters ∧ s₂.Fits twoParameters ∧
    twoParameters.contains (⟨5⟩ : TypeHandle) = true ∧
    (Build.substituteTwice s₁ s₂ ⟨5⟩ twoParameters).1 = ⟨8⟩ ∧
    (twoParameters.Evolves (Build.compose s₁ s₂ twoParameters).2 ∧
      (Build.compose s₁ s₂ twoParameters).2.Composes s₁ s₂
        (Build.compose s₁ s₂ twoParameters).1) ∧
    ∀ g₁ s, twoParameters.Evolves g₁ → g₁.Composes s₁ s₂ s →
      (∀ g₂, (Build.substituteTwice s₁ s₂ ⟨5⟩ g₁).2.Evolves g₂ →
        (Build.substitute s ⟨5⟩ g₂).1 = (Build.substituteTwice s₁ s₂ ⟨5⟩ g₁).1) ∧
      ∀ g₂, (Build.substitute s ⟨5⟩ g₁).2.Evolves g₂ →
        (Build.substituteTwice s₁ s₂ ⟨5⟩ g₂).1 = (Build.substitute s ⟨5⟩ g₁).1 := by
  intro s₁ s₂
  have h₁ : s₁.Fits twoParameters := (Substitution.fits_ofParams _ _).put _ rfl
  have h₂ : s₂.Fits twoParameters := (Substitution.fits_ofParams _ _).put _ rfl
  exact ⟨twoParameters_reachable, h₁, h₂, rfl, by decide +kernel,
    twoParameters_reachable.substitute_substitute h₁ h₂ rfl⟩

end Graph
end SemanticCore
