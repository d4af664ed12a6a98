import SemanticCore.Proofs.Template.Instantiation
import SemanticCore.Proofs.Template.Specialization

/-!
# The signature of a specialization

A specialization has the parameter types and the return type of the template's function with the
arguments substituted (`Graph.IsSpecialization`).  It says so of the graph that specializing leaves
behind, and goes on saying so in every extension of it, since substituting into a type settles.
-/

set_option autoImplicit false
namespace SemanticCore

open SemanticCore.Graph

variable {α β ε : Type} {g g' : Graph}

/-- A list of computations, each result of which satisfies `P` together with what it was computed
from. -/
theorem Attempt.Yields.mapM_forall₂ {P : α → β → Graph → Prop}
    (hP : ∀ {g g' a b}, g.WellFormed → Graph.Grows g g' → P a b g → P a b g')
    {f : α → Attempt ε β} (as : List α) {g : Graph} (hg : g.WellFormed)
    (h : ∀ a ∈ as, ∀ g', g.Grows g' → g'.WellFormed → Attempt.Yields g' (f a) (P a)) :
    Attempt.Yields g (as.mapM f) fun bs g' => List.Forall₂ (P · · g') as bs := by
  induction as generalizing g with
  | nil =>
    rw [List.mapM_nil]
    exact .pure .nil
  | cons a as ih =>
    rw [List.mapM_cons]
    refine .bind hg (h a List.mem_cons_self g (.refl g) hg) fun b g₁ hgrow hg₁ hb => ?_
    have hrest := ih hg₁ fun x hx g' hgrow' =>
      h x (List.mem_cons_of_mem _ hx) g' (hgrow.trans hgrow')
    exact .bind hg₁ hrest fun bs g₂ hgrow' _ hbs => .pure (.cons (hP hg₁ hgrow' hb) hbs)

namespace Graph

variable {s : Substitution} {t u : TypeHandle}

/-! ## Types with the arguments substituted -/

/-- The type `u` is the type `t` with the arguments of `s` substituted, and it is there already. -/
structure Substitutes (g : Graph) (s : Substitution) (t u : TypeHandle) : Prop where
  fits : s.Fits g
  source : g.contains t = true
  run : Build.substitute s t g = (u, g)

theorem Substitutes.extend (hg : g.WellFormed) (h : g.Extends g') (hu : g.Substitutes s t u) :
    g'.Substitutes s t u := by
  have hagain := (Build.Settles.substitute hg hu.fits hu.source).again g'
  rw [hu.run] at hagain
  exact ⟨hu.fits.extend h, h.contains hu.source, hagain h⟩

/-- The type that was substituted for has the instantiated tree. -/
theorem Substitutes.typeTree (hg : g.WellFormed) (hu : g.Substitutes s t u) :
    g.contains u = true ∧ g.typeTree u = (g.typeTree t).instantiate (s.tree? g) := by
  have htree := (Build.Settles.substitute hg hu.fits hu.source).yields.2
  rwa [hu.run] at htree

/-- The parameter `q` has the type of the parameter `p` with the arguments of `s` substituted. -/
def ParamSubstitutes (g : Graph) (s : Substitution) (p q : DeclHandle) : Prop :=
  ∃ t u, g.objectParamType? p = some t ∧ g.objectParamType? q = some u ∧ g.Substitutes s t u

theorem ParamSubstitutes.extend (hg : g.WellFormed) (h : g.Extends g') {p q : DeclHandle}
    (hpq : g.ParamSubstitutes s p q) : g'.ParamSubstitutes s p q := by
  obtain ⟨t, u, hp, hq, hu⟩ := hpq
  exact ⟨t, u, (h.objectParamType? (contains_of_objectParamType? hp)).trans hp,
    (h.objectParamType? (contains_of_objectParamType? hq)).trans hq, hu.extend hg h⟩

/-! ## Specializations -/

/-- The function `spec` has the parameter types and the return type of the template's function, with
the arguments of `s` substituted. -/
def IsSpecialization (g : Graph) (template : DeclHandle) (s : Substitution) (spec : DeclHandle) :
    Prop :=
  ∃ patternParams patternRet t params defn ret,
    g.functionPattern? template = some (patternParams, patternRet) ∧
    (g.decl spec).form = .function t params defn ∧ g.functionRet? t = some ret ∧
    List.Forall₂ (g.ParamSubstitutes s) patternParams params ∧ g.Substitutes s patternRet ret

theorem functionRet?_extend (h : g.Extends g') {r : TypeHandle} (ht : g.functionRet? t = some r) :
    g'.functionRet? t = some r := by
  rw [functionRet?] at ht ⊢
  have hc : g.contains t = true := contains_of_type_ne fun hvoid => by rw [hvoid] at ht; cases ht
  rwa [h.type hc]

/-- A function that may have been defined in the meantime. -/
theorem Extends.function (h : g.Extends g') {d : DeclHandle} {params : List DeclHandle}
    {defn : Option DefHandle} (hf : (g.decl d).form = .function t params defn) :
    ∃ defn', (g'.decl d).form = .function t params defn' := by
  have hd : g.contains d = true := contains_of_form_ne (by rw [hf]; rintro ⟨⟩)
  have hc := (h.decl hd).form
  rw [hf] at hc
  generalize (g'.decl d).form = f' at hc
  cases hc with
  | refl => exact ⟨defn, rfl⟩
  | function t params d => exact ⟨some d, rfl⟩

theorem Extends.template (h : g.Extends g') {d pattern : DeclHandle} {params : List DeclHandle}
    {constraint : Option ExprHandle} (hf : (g.decl d).form = .template params pattern constraint) :
    (g'.decl d).form = .template params pattern constraint := by
  have hd : g.contains d = true := contains_of_form_ne (by rw [hf]; rintro ⟨⟩)
  have hc := (h.decl hd).form
  rw [hf] at hc
  generalize (g'.decl d).form = f' at hc
  cases hc
  rfl

/-- The function that a template parameterizes goes on having its parameters and its return type. -/
theorem Extends.functionPattern? (h : g.Extends g') {d : DeclHandle}
    {pattern : List DeclHandle × TypeHandle} (hp : g.functionPattern? d = some pattern) :
    g'.functionPattern? d = some pattern := by
  rw [Graph.functionPattern?] at hp
  split at hp
  · next tparams p constraint hf =>
    split at hp
    · next t params defn hf' =>
      obtain ⟨ret, hret, rfl⟩ := Option.map_eq_some_iff.1 hp
      obtain ⟨defn', hf''⟩ := h.function hf'
      simp only [Graph.functionPattern?, h.template hf, hf'', functionRet?_extend h hret,
        Option.map_some]
    · cases hp
  · cases hp

/-- The parameters of the function that a template parameterizes are in the graph. -/
theorem WellFormed.contains_patternParams (hg : g.WellFormed) {d : DeclHandle}
    {params : List DeclHandle} {ret : TypeHandle}
    (h : g.functionPattern? d = some (params, ret)) : ∀ p ∈ params, g.contains p = true := by
  rw [Graph.functionPattern?] at h
  split at h
  · split at h
    · next hf =>
      obtain ⟨r, -, heq⟩ := Option.map_eq_some_iff.1 h
      cases heq
      exact hg.contains_functionParams hf
    · cases h
  · cases h

theorem IsSpecialization.extend (hg : g.WellFormed) (h : g.Extends g')
    {template spec : DeclHandle} (hspec : g.IsSpecialization template s spec) :
    g'.IsSpecialization template s spec := by
  obtain ⟨ps, r, t, params, defn, ret, hpattern, hform, hret, hparams, hsub⟩ := hspec
  obtain ⟨defn', hform'⟩ := h.function hform
  exact ⟨ps, r, t, params, defn', ret, h.functionPattern? hpattern, hform',
    functionRet?_extend h hret, hparams.imp fun _ _ hp => hp.extend hg h, hsub.extend hg h⟩

end Graph

/-- Substituting gives a type that stands for the substituted one from then on. -/
theorem Build.Yields.substitutes (hg : g.WellFormed) {s : Substitution} (hs : s.Fits g)
    {t : TypeHandle} (ht : g.contains t = true) :
    Build.Yields g (Build.substitute s t) fun u g' =>
      g'.contains u = true ∧ g'.Substitutes s t u := by
  have hsettles := Build.Settles.substitute hg hs ht
  have hgrow := hsettles.yields.1
  exact ⟨hgrow, hsettles.yields.2.1, hs.extend hgrow.extends, hgrow.contains ht,
    hsettles.again _ (.refl _)⟩

theorem Attempt.Yields.specializeParam (hg : g.WellFormed) {s : Substitution} (hs : s.Fits g)
    (p : DeclHandle) :
    Attempt.Yields g (Build.specializeParam s p) fun q g' => g'.ParamSubstitutes s p q := by
  refine .get_bind ?_
  split
  · exact .throw _
  · next t ht =>
    have hp := contains_of_objectParamType? ht
    refine .get_bind ?_
    refine .bind hg (.lift (.substitutes hg hs (hg.contains_objectParamType? ht)))
      fun u g₁ hgrow₁ hg₁ hsubst => ?_
    obtain ⟨hu, hsub⟩ := hsubst
    obtain ⟨hgrow₂, -, hq⟩ := Build.Yields.decl (hgrow₁.contains (hg.placed p hp).1)
      (f := .objectParam u) hu
    have hgrow := hgrow₁.trans hgrow₂
    refine .lift ⟨hgrow₂, t, u, (hgrow.extends.objectParamType? hp).trans ht, ?_,
      hsub.extend hg₁ hgrow₂.extends⟩
    rw [objectParamType?, Build.objectParam, hq]

/-- **A specialization has the signature of the template's function with the arguments
substituted.** -/
theorem Attempt.Yields.specialize (hg : g.WellFormed) (template : DeclHandle) {s : Substitution}
    (hs : s.Fits g) :
    Attempt.Yields g (Build.specialize template s) fun spec g' =>
      g'.IsSpecialization template s spec := by
  refine .get_bind ?_
  split
  · next params ret hpattern =>
    have hret := hg.contains_functionPattern? hpattern
    split
    · next args hargs =>
      refine .pure_bind (.bind hg (Attempt.Makes.templateName (hs.args hargs)).adapt
        fun n g₁ hgrow₁ hg₁ hn => ?_)
      have hs₁ := hs.extend hgrow₁.extends
      have hparams := Attempt.Yields.mapM_forall₂
        (P := fun (p q : DeclHandle) (g' : Graph) => g'.ParamSubstitutes s p q)
        (fun hg' h hpq => hpq.extend hg' h.extends) params hg₁
        fun p _ g' hgrow hg' => .specializeParam hg' (hs₁.extend hgrow.extends) p
      refine .bind hg₁ hparams fun ps g₂ hgrow₂ hg₂ hps => ?_
      refine .bind hg₂ (.lift (.substitutes hg₂ (hs₁.extend hgrow₂.extends)
        ((hgrow₁.trans hgrow₂).contains hret))) fun r g₃ hgrow₃ hg₃ hsubst => ?_
      obtain ⟨hr, hsub⟩ := hsubst
      have hn₃ := hgrow₃.contains (hgrow₂.contains hn)
      refine .bind hg₃ (Attempt.Yields.functionDecl hg₃ hn₃ hr).adapt
        fun spec g₄ hgrow₄ hg₄ hfunction => ?_
      obtain ⟨hc, t, ts, hform, htype, -⟩ := hfunction
      have hspec : g₄.IsSpecialization template s spec := by
        refine ⟨params, ret, t, ps, none, r, ?_, by rw [hform], by rw [functionRet?, htype], ?_,
          hsub.extend hg₃ hgrow₄.extends⟩
        · have hgrow := ((hgrow₁.trans hgrow₂).trans hgrow₃).trans hgrow₄
          exact hgrow.extends.functionPattern? hpattern
        · exact hps.imp fun _ _ hpq => hpq.extend hg₂ (hgrow₃.trans hgrow₄).extends
      refine .bind hg₄ (.lift (.setContexts ps hg₄ hc)) fun _ g₅ hgrow₅ hg₅ _ => .get_bind ?_
      have hspec₅ := hspec.extend hg₄ hgrow₅.extends
      split
      · next context hcontext =>
        refine .bind hg₅ (.lift (.setContext spec (hg₅.contains_context hcontext)))
          fun _ g₆ hgrow₆ _ _ => ?_
        exact .pure (hspec₅.extend hg₅ hgrow₆.extends)
      · exact .pure hspec₅
    · exact .throw_bind _
  · exact .throw _

end SemanticCore
