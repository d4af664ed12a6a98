import SemanticCore.Proofs.Graph.Settling
import SemanticCore.Proofs.Template.Deduction
import SemanticCore.Proofs.Type.Instantiation

/-!
# Substitution instantiates trees

Substituting into a type gives the type whose tree is the instantiated tree, and once it has been
given it is given again (`Build.Settles.substitute`).  Filling in defaults substitutes into them, so
a deduction that succeeded settles as well (`Build.deduce_again`): asked again at any later time,
the same call deduces the same arguments and adds nothing.
-/

set_option autoImplicit false
namespace SemanticCore

open SemanticCore.Graph

variable {g g' : Graph}

/-- The trees of the types that a substitution puts in place of parameters. -/
def Substitution.tree? (s : Substitution) (g : Graph) (d : DeclHandle) : Option TypeTree :=
  (s.type? d).map g.typeTree

theorem Substitution.Fits.tree?_extend {s : Substitution} (hs : s.Fits g) (hg : g.WellFormed)
    (h : g.Extends g') : s.tree? g' = s.tree? g := by
  funext d
  rw [tree?, tree?]
  cases ht : s.type? d with
  | none => rfl
  | some t => exact congrArg some (hg.typeTree_extend h (hs.type? ht))

namespace Build.Settles

/-- The type is found again by its tree. -/
theorem tree {f : TypeForm} (hg : g.WellFormed) (hf : f.Fits g) :
    Settles g (Build.type f) fun t g' =>
      g'.contains t = true ∧ g'.typeTree t = f.tree g.typeTree := by
  refine ⟨⟨.of_addition (.type hf), ?_⟩, (type hf).again⟩
  obtain ⟨hgrow, hc, hform⟩ := (type hf).yields
  rw [(hgrow.wellFormed hg).typeTree_eq hc, hform]
  exact ⟨hc, TypeForm.tree_congr fun s hs =>
    hg.typeTree_extend hgrow.extends (fits_components hf s hs)⟩

theorem qualifiedType (hg : g.WellFormed) {t : TypeHandle} (quals : Qualifiers)
    (ht : g.contains t = true) :
    Settles g (Build.qualifiedType t quals) fun u g' =>
      g'.contains u = true ∧ g'.typeTree u = (g.typeTree t).qualify quals := by
  have hfits := (hg.placed t ht).1
  have htree := hg.typeTree_eq ht
  refine .get_bind ?_ fun g' hext => by rw [hext.type ht]
  cases hf : g.type t with
  | reference target =>
    refine .pure ⟨ht, ?_⟩
    rw [htree, hf]
    rfl
  | qualified base own =>
    rw [hf] at hfits htree
    dsimp only
    split
    · next hcov =>
      refine .pure ⟨ht, ?_⟩
      rw [htree, TypeForm.tree, TypeTree.qualify, Qualifiers.covers_iff_union_eq.1 hcov]
    · rw [htree]
      exact tree hg (f := .qualified base (own.union quals))
        ⟨hfits.1, hfits.2.1, hfits.2.2.1, Qualifiers.isNone_union hfits.2.2.2⟩
  | _ =>
    have hr : (g.typeTree t).isReference = false := by rw [hg.isReference_typeTree ht, hf]; rfl
    have hq : (g.typeTree t).isQualified = false := by rw [hg.isQualified_typeTree ht, hf]; rfl
    dsimp only
    rw [TypeTree.qualify_of_plain quals hr hq]
    split
    · exact .pure ⟨ht, rfl⟩
    · next hn =>
      rw [hg.isReference_typeTree ht] at hr
      rw [hg.isQualified_typeTree ht] at hq
      exact tree hg (f := .qualified t quals) ⟨ht, hr, hq, eq_false_of_ne_true hn⟩

/-- **Substituting into a type gives the type of the instantiated tree**, now and from then on. -/
theorem substitute {g : Graph} (hg : g.WellFormed) {s : Substitution} (hs : s.Fits g)
    {t : TypeHandle} (ht : g.contains t = true) :
    Settles g (Build.substitute s t) fun u g' =>
      g'.contains u = true ∧ g'.typeTree u = (g.typeTree t).instantiate (s.tree? g) := by
  obtain ⟨i⟩ := t
  induction i using Nat.strongRecOn generalizing g with
  | ind i ih =>
    have htree := hg.typeTree_eq ht
    -- every component is substituted into, in whatever graph its turn comes
    have hpart : ∀ x ∈ (g.type ⟨i⟩).components, ∀ g', g.Grows g' → g'.WellFormed →
        Settles g' (if _ : x < ⟨i⟩ then Build.substitute s x else Pure.pure x) fun u g'' =>
          g''.contains u = true ∧ g''.typeTree u = (g.typeTree x).instantiate (s.tree? g) := by
      intro x hx g' hgrow hg'
      have hc := hg.contains_component ht hx
      rw [dif_pos (hg.component_lt ht hx), ← hg.typeTree_extend hgrow.extends hc,
        ← hs.tree?_extend hg hgrow.extends]
      exact ih x.index (hg.component_lt ht hx) hg' (hs.extend hgrow.extends) (hgrow.contains hc)
    rw [Build.substitute]
    refine .get_bind ?_ fun g' hext => by rw [hext.typeFlags hg.flags_size ht]
    split
    · refine .get_bind ?_ fun g' hext => by rw [hext.type ht]
      cases hf : g.type ⟨i⟩ with
      | typename d =>
        rw [hf] at htree
        rw [htree, TypeForm.tree, TypeTree.instantiate, Substitution.tree?]
        refine .pure ?_
        cases hd : s.type? d with
        | none => exact ⟨ht, htree⟩
        | some u => exact ⟨hs.type? hd, rfl⟩
      | function params ret =>
        rw [hf] at hpart htree
        rw [htree, TypeForm.tree, TypeTree.instantiate]
        have hparams := Settles.mapM (P := fun (x u : TypeHandle) (g' : Graph) =>
          g'.contains u = true ∧ g'.typeTree u = (g.typeTree x).instantiate (s.tree? g))
          (fun hg₁ h hu => ⟨h.contains hu.1, (hg₁.typeTree_extend h.extends hu.1).trans hu.2⟩)
          params hg fun x hx => hpart x (List.mem_append_left _ hx)
        refine .bind hg hparams fun ps g₁ hgrow₁ hg₁ hps => ?_
        have hret := hpart ret (List.mem_append_right _ List.mem_cons_self) g₁ hgrow₁ hg₁
        refine .bind hg₁ hret fun r g₂ hgrow₂ hg₂ hr => ?_
        have hps₂ : ∀ p ∈ ps, g₂.contains p = true := forall_right_of_forall₂ hps fun _ _ hp =>
          hgrow₂.contains hp.1
        have htrees : (params.map g.typeTree).map (·.instantiate (s.tree? g)) =
            ps.map g₂.typeTree := by
          rw [List.map_map]
          exact map_eq_map_of_forall₂ (hps.imp fun _ _ hp =>
            ((hg₁.typeTree_extend hgrow₂.extends hp.1).trans hp.2).symm)
        rw [htrees, ← hr.2]
        exact tree hg₂ (f := .function ps r) ⟨hps₂, hr.1⟩
      | qualified base quals =>
        rw [hf] at hpart htree
        rw [htree, TypeForm.tree, TypeTree.instantiate]
        refine .bind hg (hpart base List.mem_cons_self g (.refl g) hg) fun b g₁ _ hg₁ hb => ?_
        rw [← hb.2]
        exact qualifiedType hg₁ quals hb.1
      | pointer x =>
        rw [hf] at hpart htree
        rw [htree, TypeForm.tree, TypeTree.instantiate]
        refine .bind hg (hpart x List.mem_cons_self g (.refl g) hg) fun y g₁ _ hg₁ hy => ?_
        rw [← hy.2]
        exact tree hg₁ (f := .pointer y) hy.1
      | reference x =>
        rw [hf] at hpart htree
        rw [htree, TypeForm.tree, TypeTree.instantiate]
        refine .bind hg (hpart x List.mem_cons_self g (.refl g) hg) fun y g₁ _ hg₁ hy => ?_
        rw [← hy.2]
        exact tree hg₁ (f := .reference y) hy.1
      | sequence x =>
        rw [hf] at hpart htree
        rw [htree, TypeForm.tree, TypeTree.instantiate]
        refine .bind hg (hpart x List.mem_cons_self g (.refl g) hg) fun y g₁ _ hg₁ hy => ?_
        rw [← hy.2]
        exact tree hg₁ (f := .sequence y) hy.1
      | _ =>
        rw [hf] at htree
        refine .pure ⟨ht, ?_⟩
        simp only [htree, TypeForm.tree, TypeTree.instantiate]
    · next hflag =>
      refine .pure ⟨ht, (TypeTree.instantiate_of_not_mentions (hg.normal_typeTree ht) ?_).symm⟩
      exact fun d hd => hflag ((hg.parameter_iff ht).2 ⟨d, hd⟩)

end Build.Settles

/-! ## Deduction settles -/

namespace Build

variable {s s' : Substitution}

theorem fillDefault_again (hg : g.WellFormed) (hs : s.Fits g) {d : DeclHandle}
    (hd : g.contains d = true) (h : fillDefault s d g = (.ok s', g')) {g'' : Graph}
    (hext : g'.Extends g'') : fillDefault s d g'' = (.ok s', g'') := by
  cases hb : s.isBound d with
  | true =>
    rw [fillDefault_bound hb] at h ⊢
    cases h
    rfl
  | false =>
    cases hdefault : g.typeDefault? d with
    | none => rw [fillDefault_none hb hdefault] at h; cases h
    | some t =>
      have hsettles := Settles.substitute hg hs (hg.contains_typeDefault? hdefault)
      rw [fillDefault_some hb hdefault] at h
      cases h
      have hext' := hsettles.yields.1.extends.trans hext
      rw [fillDefault_some hb ((hext'.typeDefault? hd).trans hdefault), hsettles.again g'' hext]

theorem fillDefaults_again (ds : List DeclHandle) {g g' g'' : Graph} {s s' : Substitution}
    (hg : g.WellFormed) (hs : s.Fits g) (hds : ∀ d ∈ ds, g.contains d = true)
    (h : ds.foldlM fillDefault s g = (.ok s', g')) (hext : g'.Extends g'') :
    ds.foldlM fillDefault s g'' = (.ok s', g'') := by
  induction ds generalizing g s with
  | nil =>
    cases h
    rfl
  | cons d ds ih =>
    rw [List.foldlM_cons] at h ⊢
    have hyield := Attempt.Yields.fillDefault hg hs d
    rw [Attempt.Yields, Build.Yields] at hyield
    rcases hstep : fillDefault s d g with ⟨e | s₁, g₁⟩
    · rw [Attempt.bind_of_error hstep] at h
      cases h
    · rw [Attempt.bind_of_ok hstep] at h
      rw [hstep] at hyield
      obtain ⟨hgrow, hres⟩ := hyield
      have hg₁ := hgrow.wellFormed hg
      have hs₁ := (hres s₁ rfl).1
      have hds₁ : ∀ x ∈ ds, g₁.contains x = true := fun x hx =>
        hgrow.contains (hds x (List.mem_cons_of_mem _ hx))
      have hrest := (Attempt.Yields.fillDefaults ds hg₁ hs₁).1
      rw [h] at hrest
      have hstep' := fillDefault_again hg hs (hds d List.mem_cons_self) hstep
        (hrest.extends.trans hext)
      rw [Attempt.bind_of_ok hstep']
      exact ih hg₁ hs₁ hds₁ h

end Build

/-- Folds of the same steps are the same. -/
theorem foldlM_congr {β σ ε : Type} {f k : σ → β → Except ε σ} {bs : List β} (s : σ)
    (h : ∀ b ∈ bs, ∀ s, f s b = k s b) : bs.foldlM f s = bs.foldlM k s := by
  induction bs generalizing s with
  | nil => rfl
  | cons b bs ih =>
    rw [List.foldlM_cons, List.foldlM_cons, h b List.mem_cons_self]
    exact bind_congr fun s' => ih s' fun c hc => h c (List.mem_cons_of_mem _ hc)

namespace Graph

variable {tparams params : List DeclHandle} {args : List ExprHandle}

/-- Matching reads nothing that an extension could change. -/
theorem WellFormed.matchType_extend (hg : g.WellFormed) (h : g.Extends g') {p a : TypeHandle}
    (hp : g.contains p = true) (ha : g.contains a = true) (s : Substitution) :
    g'.matchType p a s = g.matchType p a s := by
  obtain ⟨i⟩ := p
  induction i using Nat.strongRecOn generalizing a s with
  | ind i ih =>
    have hflag' := h.typeFlags hg.flags_size hp
    cases hflag : (g.typeFlags ⟨i⟩).parameter with
    | false => rw [matchType_of_flag hflag, matchType_of_flag (hflag' ▸ hflag)]
    | true =>
      have hflag' : (g'.typeFlags ⟨i⟩).parameter = true := hflag' ▸ hflag
      by_cases hname : ∃ d, g.type ⟨i⟩ = .typename d
      · obtain ⟨d, hd⟩ := hname
        rw [matchType_typename hflag hd, matchType_typename hflag' ((h.type hp).trans hd)]
      · have hne : ∀ d, g.type ⟨i⟩ ≠ .typename d := fun d hd => hname ⟨d, hd⟩
        by_cases halike : (g.type ⟨i⟩).Alike (g.type a)
        · rw [matchType_alike hflag halike, matchType_alike hflag' (by rwa [h.type hp, h.type ha]),
            h.type hp, h.type ha]
          refine foldlM_congr s fun e he s' => ?_
          obtain ⟨hx, hy⟩ := List.of_mem_zip he
          have hlt := hg.component_lt hp hx
          rw [matchPart, matchPart, if_pos hlt, if_pos hlt]
          exact ih e.1.index hlt (hg.contains_component ha hy) s' (hg.contains_component hp hx)
        · rw [matchType_unalike hflag hne halike, matchType_unalike hflag'
            (by simpa only [h.type hp] using hne) (by rwa [h.type hp, h.type ha])]

/-- The value type of a type of the graph is the same in every extension. -/
theorem WellFormed.valueType_extend (hg : g.WellFormed) (h : g.Extends g') {t : TypeHandle}
    (ht : g.contains t = true) : g'.valueType t = g.valueType t := by
  rw [valueType, valueType, h.nonReference ht, h.unqualified (hg.contains_nonReference ht)]

theorem Extends.exprType (h : g.Extends g') {e : ExprHandle} (he : g.contains e = true) :
    g'.exprType e = g.exprType e := by
  rw [Graph.exprType, Graph.exprType, h.expr he]

theorem WellFormed.argType_extend (hg : g.WellFormed) (h : g.Extends g') {e : ExprHandle}
    (he : g.contains e = true) : g'.argType e = g.argType e := by
  rw [argType, argType, h.exprType he, hg.valueType_extend h (hg.contains_exprType he)]

theorem WellFormed.matchArgs_extend (hg : g.WellFormed) (h : g.Extends g')
    (hp : ∀ p ∈ params, g.contains p = true) (ha : ∀ a ∈ args, g.contains a = true)
    (s : Substitution) : g'.matchArgs params args s = g.matchArgs params args s := by
  rw [matchArgs_eq, matchArgs_eq]
  refine foldlM_congr s fun e he s' => ?_
  obtain ⟨hmem, hmem'⟩ := List.of_mem_zip he
  have hparam := h.objectParamType? (hp e.1 hmem)
  have harg := ha e.2 hmem'
  rw [matchArg, matchArg, hparam, hg.argType_extend h harg]
  cases ht : g.objectParamType? e.1 with
  | none => rfl
  | some t =>
    have hc := hg.contains_objectParamType? ht
    dsimp only
    rw [hg.valueType_extend h hc,
      hg.matchType_extend h (hg.contains_valueType hc) (hg.contains_argType harg)]

/-- **A deduction that succeeded is settled**: the same call deduces the same arguments at any later
time, and adds nothing. -/
theorem WellFormed.deduce_again (hg : g.WellFormed) (htp : ∀ d ∈ tparams, g.contains d = true)
    (hp : ∀ p ∈ params, g.contains p = true) (ha : ∀ a ∈ args, g.contains a = true)
    {s : Substitution} (h : Build.deduce tparams params args g = (.ok s, g')) {g'' : Graph}
    (hext : g'.Extends g'') : Build.deduce tparams params args g'' = (.ok s, g'') := by
  have hgrow := (hg.yields_deduce tparams params ha).1
  rw [h] at hgrow
  have hext' := hgrow.extends.trans hext
  obtain ⟨hlen, s₁, hm, hfill⟩ := Build.deduce_ok h
  have htyped := (hg.matches_matchArgs tparams (objectParam_of_matchArgs hlen hm) ha).typed rfl
    (typed_ofParams g tparams) hm
  rw [Build.deduce_eq _ _ _ hlen, hg.matchArgs_extend hext' hp ha, hm]
  exact Build.fillDefaults_again tparams hg htyped.fits htp hfill hext

end Graph
end SemanticCore
