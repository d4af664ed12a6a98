import SemanticCore.Proofs.Graph.Sparing
import SemanticCore.Proofs.Template.Defaults

/-!
# The function that specializing makes

Deduction and specialization agree on what a complete substitution is: whatever is deduced for a
function template can be specialized to.  The function that comes out is new, with parameters of its
own (`Graph.NewFunction`), and although its type is put together from the types of these parameters,
it is the type of the template's function with the arguments substituted.

* `Attempt.Yields.specialize_new` — what is new about a specialization.
* `Graph.WellFormed.substitutes_function` — a function type of substituted parts is the substituted
  function type.
* `Graph.WellFormed.specialize_deduced` — **what is deduced can be specialized to.**
-/

set_option autoImplicit false
namespace SemanticCore

open SemanticCore.Graph

variable {α ε : Type} {g g' : Graph}

/-! ## New declarations -/

/-- What spares every declaration but its result has made its result. -/
theorem Attempt.not_contains_of_spares {x : Attempt ε DeclHandle}
    (hx : ∀ d, Attempt.Spares d x (· ≠ d)) {d : DeclHandle} (h : (x g).1 = .ok d) :
    g.contains d = false := by
  by_contra hd
  exact (hx d g (by simpa using hd)).2 d h rfl

/-- Declarations that are made one after another are new, and different from each other. -/
theorem Attempt.Yields.mapM_new {f : α → Attempt ε DeclHandle}
    (hf : ∀ a d, Attempt.Spares d (f a) (· ≠ d)) (as : List α) {g : Graph} (hg : g.WellFormed)
    (h : ∀ a ∈ as, ∀ g', g.Grows g' → g'.WellFormed → Attempt.Makes g' (f a)) :
    Attempt.Yields g (as.mapM f) fun ds g' =>
      ds.Nodup ∧ ∀ d ∈ ds, g.contains d = false ∧ g'.contains d = true := by
  induction as generalizing g with
  | nil =>
    rw [List.mapM_nil]
    exact .pure ⟨.nil, by simp⟩
  | cons a as ih =>
    rw [List.mapM_cons]
    have hhead := h a List.mem_cons_self g (.refl g) hg
    have hnew : Attempt.Yields g (f a) fun d g' => g.contains d = false ∧ g'.contains d = true :=
      ⟨hhead.1, fun d hd => ⟨Attempt.not_contains_of_spares (hf a) hd, hhead.2 d hd⟩⟩
    refine .bind hg hnew fun d g₁ hgrow hg₁ ⟨hd, hd₁⟩ => ?_
    have htail := ih hg₁ fun x hx g' hgrow' =>
      h x (List.mem_cons_of_mem _ hx) g' (hgrow.trans hgrow')
    have hrest : Attempt.Yields g₁ (as.mapM f) fun ds g' => (∀ x ∈ ds, x ≠ d) ∧ ds.Nodup ∧
        ∀ x ∈ ds, g₁.contains x = false ∧ g'.contains x = true :=
      ⟨htail.1, fun ds hds => ⟨(Attempt.Spares.mapM (fun a => hf a d) as g₁ hd₁).2 ds hds,
        htail.2 ds hds⟩⟩
    refine .bind hg₁ hrest fun ds g₂ hgrow' _ ⟨hne, hnodup, hds⟩ => .pure ⟨?_, ?_⟩
    · exact List.nodup_cons.2 ⟨fun hmem => hne d hmem rfl, hnodup⟩
    · refine List.forall_mem_cons.2 ⟨⟨hd, hgrow'.contains hd₁⟩, fun x hx => ⟨?_, (hds x hx).2⟩⟩
      by_contra hx'
      exact Bool.false_ne_true ((hds x hx).1.symm.trans (hgrow.contains (by simpa using hx')))

/-! ## Placing -/

namespace Build

theorem decl_setContext {d : DeclHandle} (hd : g.contains d = true) (c : DeclHandle) :
    Graph.decl (Build.setContext d c g).2 d = { g.decl d with context := some c } := by
  have hget := getElem?_eq_some_getD (contains_iff.1 hd) default
  change (g.decls.modify d.index _)[d.index]?.getD default = _
  rw [Array.getElem?_modify, if_pos rfl, hget]
  rfl

/-- Placing declarations in a context changes nothing but the contexts of these declarations. -/
theorem decl_setContexts {d : DeclHandle} (ds : List DeclHandle) {g : Graph}
    (hd : g.contains d = true) (c : DeclHandle) :
    Graph.decl (Build.setContexts ds c g).2 d =
      { g.decl d with context := if d ∈ ds then some c else (g.decl d).context } := by
  induction ds generalizing g with
  | nil => rfl
  | cons x ds ih =>
    have hplaced := ih ((extends_setContext x c g).contains hd)
    change Graph.decl (Build.setContexts ds c (Build.setContext x c g).2).2 d = _
    rw [hplaced]
    by_cases hx : x = d
    · rw [hx, decl_setContext hd]
      simp
    · rw [(spares_setContext hx c).decl hd]
      simp [Ne.symm hx]

/-- What is placed stays where it is placed, while others are placed there as well. -/
theorem context_setContexts {c d : DeclHandle} (ds : List DeclHandle) {g : Graph}
    (hd : g.contains d = true) (h : d ∈ ds ∨ (g.decl d).context = some c) :
    (Graph.decl (Build.setContexts ds c g).2 d).context = some c := by
  rw [decl_setContexts ds hd]
  dsimp only
  split
  · rfl
  · next hmem => exact h.resolve_left hmem

end Build

/-! ## The specialization -/

/-- In the second graph, which has grown out of the first, `spec` is a new function without a body,
and its parameters are new, different from each other, and belong to it. -/
structure Graph.NewFunction (g g' : Graph) (spec : DeclHandle) (t : TypeHandle)
    (params : List DeclHandle) : Prop where
  form : (g'.decl spec).form = .function t params none
  new : g.contains spec = false
  newParams : ∀ q ∈ params, g.contains q = false
  nodup : params.Nodup
  context : ∀ q ∈ params, (g'.decl q).context = some spec

theorem Graph.NewFunction.setContext {spec : DeclHandle} {t : TypeHandle} {params : List DeclHandle}
    (h : g.NewFunction g' spec t params)
    (hparams : ∀ q ∈ params, g'.contains q = true ∧ q ≠ spec) (c : DeclHandle) :
    g.NewFunction (Build.setContext spec c g').2 spec t params where
  form := by
    rw [← h.form]
    rcases g'.decl_modify spec (fun d => { d with context := some c }) spec with hd | ⟨-, hd⟩
    · exact congrArg Decl.form hd
    · exact (congrArg Decl.form hd).trans rfl
  new := h.new
  newParams := h.newParams
  nodup := h.nodup
  context q hq := by
    obtain ⟨hc, hne⟩ := hparams q hq
    rw [(spares_setContext hne.symm c).decl hc]
    exact h.context q hq

/-- A declaration that was not there yet was not there before. -/
theorem Graph.Extends.not_contains (h : g.Extends g') {d : DeclHandle}
    (hd : g'.contains d = false) : g.contains d = false := by
  by_contra hc
  exact Bool.false_ne_true (hd.symm.trans (h.contains (by simpa using hc)))

theorem Attempt.Yields.functionDecl_new (hg : g.WellFormed) {n : NameHandle}
    {params : List DeclHandle} {ret : TypeHandle} (hn : g.contains n = true)
    (hr : g.contains ret = true) :
    Attempt.Yields g (Build.functionDecl n params ret) fun d g' => g'.contains d = true ∧
      g.contains d = false ∧ ∃ t, (g'.decl d).form = .function t params none := by
  have hyield : Attempt.Yields g (Build.functionDecl n params ret) _ := .functionDecl hg hn hr
  refine ⟨hyield.1, fun d hd => ?_⟩
  obtain ⟨hc, t, _, hdecl, -⟩ := hyield.2 d hd
  exact ⟨hc, Attempt.not_contains_of_spares (fun _ => .functionDecl n params ret) hd, t,
    congrArg Decl.form hdecl⟩

/-- **A specialization is a new function with new parameters of its own.** -/
theorem Attempt.Yields.specialize_new (hg : g.WellFormed) (template : DeclHandle)
    {s : Substitution} (hs : s.Fits g) :
    Attempt.Yields g (Build.specialize template s) fun spec g' =>
      ∃ t params, g.NewFunction g' spec t params := by
  refine .get_bind ?_
  split
  · next params ret hpattern =>
    have hret := hg.contains_functionPattern? hpattern
    split
    · next args hargs =>
      refine .pure_bind (.bind hg (Attempt.Makes.templateName (hs.args hargs)).adapt
        fun n g₁ hgrow₁ hg₁ hn => ?_)
      have hs₁ := hs.extend hgrow₁.extends
      refine .bind hg₁ (.mapM_new (fun p _ => .specializeParam s p) params hg₁
        fun p _ g' hgrow hg' => .specializeParam hg' (hs₁.extend hgrow.extends) p)
        fun qs g₂ hgrow₂ hg₂ ⟨hnodup, hqs⟩ => ?_
      refine .bind hg₂ (.lift (Build.Makes.substitute hg₂ (hs₁.extend hgrow₂.extends)
        ((hgrow₁.trans hgrow₂).contains hret))) fun r g₃ hgrow₃ hg₃ hr => ?_
      have hn₃ := hgrow₃.contains (hgrow₂.contains hn)
      refine .bind hg₃ (Attempt.Yields.functionDecl_new hg₃ hn₃ hr).adapt
        fun spec g₄ hgrow₄ hg₄ ⟨hspec, hnew, t, hform⟩ => ?_
      -- the parameters were there when the function was made, so they are not the function
      have hne : ∀ q ∈ qs, q ≠ spec := by
        rintro q hq rfl
        exact Bool.false_ne_true (hnew.symm.trans (hgrow₃.contains (hqs q hq).2))
      have hqs₄ : ∀ q ∈ qs, g₄.contains q = true := fun q hq =>
        (hgrow₃.trans hgrow₄).contains (hqs q hq).2
      have hplaced : Build.Yields g₄ (Build.setContexts qs spec) fun _ g₅ =>
          g.NewFunction g₅ spec t qs := by
        obtain ⟨hgrow₅, -⟩ := Build.Yields.setContexts qs hg₄ hspec
        have hspare := (Build.Spares.setContexts hne spec g₄ hspec).1
        refine ⟨hgrow₅, ⟨by rw [hspare.decl hspec, hform], ?_, ?_, hnodup, fun q hq =>
          Build.context_setContexts qs (hqs₄ q hq) (.inl hq)⟩⟩
        · exact ((hgrow₁.trans hgrow₂).trans hgrow₃).extends.not_contains hnew
        · exact fun q hq => hgrow₁.extends.not_contains (hqs q hq).1
      refine .bind hg₄ (.lift hplaced) fun _ g₅ hgrow₅ hg₅ h => .get_bind ?_
      split
      · next context hcontext =>
        have hparams : ∀ q ∈ qs, g₅.contains q = true ∧ q ≠ spec := fun q hq =>
          ⟨hgrow₅.contains (hqs₄ q hq), hne q hq⟩
        refine .bind hg₅ (.lift ⟨(Build.Yields.setContext spec (hg₅.contains_context hcontext)).1,
          h.setContext hparams context⟩) fun _ _ _ _ h' => .pure ⟨t, qs, h'⟩
      · exact .pure ⟨t, qs, h⟩
    · exact .throw_bind _
  · exact .throw _

/-! ## The type of the specialization -/

theorem Build.bind_of_eq {β : Type} {x : Build α} {f : α → Build β} {a : α} (h : x g = (a, g')) :
    (x >>= f) g = f a g' :=
  congrArg (fun r : α × Graph => f r.1 r.2) h

/-- Computations that leave the graph alone, one after another. -/
theorem Build.mapM_of_forall₂ {β : Type} {f : α → Build β} {as : List α} {bs : List β}
    (h : List.Forall₂ (fun a b => f a g = (b, g)) as bs) : as.mapM f g = (bs, g) := by
  induction h with
  | nil => rfl
  | cons hab _ ih => rw [List.mapM_cons, bind_of_eq hab, bind_of_eq ih]; rfl

namespace Graph

variable {s : Substitution}

/-- **A function type of substituted parts is the substituted function type.** -/
theorem WellFormed.substitutes_function (hg : g.WellFormed) (hs : s.Fits g) {t u r r' : TypeHandle}
    {ts us : List TypeHandle} (ht : g.contains t = true) (htype : g.type t = .function ts r)
    (hu : g.contains u = true) (hutype : g.type u = .function us r')
    (hparts : List.Forall₂ (g.Substitutes s) ts us) (hret : g.Substitutes s r r') :
    g.Substitutes s t u := by
  refine ⟨hs, ht, ?_⟩
  rw [Build.substitute, Build.get_bind]
  cases hflag : (g.typeFlags t).parameter with
  | true =>
    have hpart : ∀ {x y : TypeHandle}, x ∈ ts ++ [r] → g.Substitutes s x y →
        (if _ : x < t then Build.substitute s x else pure x : Build TypeHandle) g = (y, g) := by
      intro x y hx hy
      rw [dif_pos (hg.component_lt ht (by rw [htype]; exact hx)), hy.run]
    have hmem : List.Forall₂ (fun x y => x ∈ ts ∧ g.Substitutes s x y) ts us :=
      (List.forall₂_and_left _ _).2 ⟨fun _ hx => hx, hparts⟩
    have hparams : ts.mapM (fun x =>
        (if _ : x < t then Build.substitute s x else pure x : Build TypeHandle)) g = (us, g) :=
      Build.mapM_of_forall₂ (hmem.imp fun x y hxy => hpart (List.mem_append_left _ hxy.1) hxy.2)
    rw [if_pos rfl, Build.get_bind, htype]
    dsimp only
    rw [Build.bind_of_eq hparams, Build.bind_of_eq (hpart (by simp) hret)]
    exact type_again hu hutype
  | false =>
    -- nothing is substituted, so the trees are the same
    have htree : g.typeTree u = (g.typeTree t).instantiate (s.tree? g) := by
      rw [hg.typeTree_eq hu, hg.typeTree_eq ht, htype, hutype, TypeForm.tree, TypeForm.tree,
        TypeTree.instantiate, (hret.typeTree hg).2, List.map_map]
      have htrees : us.map g.typeTree = ts.map ((·.instantiate (s.tree? g)) ∘ g.typeTree) :=
        (map_eq_map_of_forall₂ (hparts.imp fun x y hxy => (hxy.typeTree hg).2.symm)).symm
      rw [htrees]
    have hsame : (g.typeTree t).instantiate (s.tree? g) = g.typeTree t :=
      TypeTree.instantiate_of_not_mentions (hg.normal_typeTree ht) fun d hd =>
        Bool.false_ne_true (hflag.symm.trans ((hg.parameter_iff ht).2 ⟨d, hd⟩))
    rw [if_neg Bool.false_ne_true, hg.typeTree_injective hu ht (htree.trans hsame)]
    rfl

/-- The types of substituted parameters are substituted types. -/
theorem ParamSubstitutes.types {params qs : List DeclHandle} {ts us : List TypeHandle}
    (h : List.Forall₂ (g.ParamSubstitutes s) params qs)
    (hp : params.map g.objectParamType? = ts.map some)
    (hq : qs.map g.objectParamType? = us.map some) : List.Forall₂ (g.Substitutes s) ts us := by
  induction h generalizing ts us with
  | nil =>
    rw [List.map_eq_nil_iff.1 hp.symm, List.map_eq_nil_iff.1 hq.symm]
    exact .nil
  | cons hpq _ ih =>
    obtain ⟨t, u, ht, hu, hsub⟩ := hpq
    obtain ⟨t', ts, rfl, ht', hts⟩ := List.map_eq_cons_iff.1 hp.symm
    obtain ⟨u', us, rfl, hu', hus⟩ := List.map_eq_cons_iff.1 hq.symm
    obtain rfl : t' = t := Option.some.inj (ht'.trans ht)
    obtain rfl : u' = u := Option.some.inj (hu'.trans hu)
    exact .cons hsub (ih hts.symm hus.symm)

/-- In the second graph, which has grown out of the first, `spec` is the specialization to the
arguments of `s` of a function of type `t` with the given parameters: it is a new function with new
parameters, whose types are the substituted ones, and so is its own. -/
def SpecializedTo (g g' : Graph) (s : Substitution) (t : TypeHandle) (params : List DeclHandle)
    (spec : DeclHandle) : Prop :=
  ∃ u qs, g.NewFunction g' spec u qs ∧ g'.Substitutes s t u ∧
    List.Forall₂ (g'.ParamSubstitutes s) params qs

/-- **What is deduced for a function template can be specialized to.** -/
theorem WellFormed.specialize_deduced (hg : g.WellFormed) {template pattern : DeclHandle}
    {tparams params : List DeclHandle} {constraint : Option ExprHandle} {t : TypeHandle}
    {defn : Option DefHandle} {args : List ExprHandle}
    (htemplate : (g.decl template).form = .template tparams pattern constraint)
    (hpattern : (g.decl pattern).form = .function t params defn)
    (ha : ∀ e ∈ args, g.contains e = true)
    (h : Build.deduce tparams params args g = (.ok s, g')) :
    ∃ spec g'', Build.specialize template s g' = (.ok spec, g'') ∧ g'.Grows g'' ∧
      g'.SpecializedTo g'' s t params spec ∧ g''.IsSpecialization template s spec := by
  obtain ⟨hgrow, hres⟩ := hg.yields_deduce tparams params ha
  rw [h] at hgrow hres
  have hg' := hgrow.wellFormed hg
  have hfits := hres s rfl
  have hbound : ∀ d ∈ s.params, s.isBound d = true := by
    rw [(hg.typed_deduce ha h).2]
    exact (hg.deduce_solution ha h).1
  have hmem := (hg.contains_template htemplate).2.1
  obtain ⟨ts, ret, htype, hts⟩ := hg.function_type hpattern
  have hp : g.functionPattern? template = some (params, ret) := by
    simp only [functionPattern?, htemplate, hpattern, functionRet?, htype, Option.map_some]
  obtain ⟨spec, g'', hrun, hgrow', hspec⟩ :=
    Attempt.Succeeds.specialize hg' hfits hbound (hgrow.extends.functionPattern? hp)
  refine ⟨spec, g'', hrun, hgrow', ?_, hspec⟩
  have hg'' := hgrow'.wellFormed hg'
  have hext := (hgrow.trans hgrow').extends
  have hnew := (Attempt.Yields.specialize_new hg' template hfits).2
  rw [hrun] at hnew
  obtain ⟨u, qs, hnew⟩ := hnew spec rfl
  obtain ⟨ps, r, u', qs', _, r', hp', hform, hret', hparams, hret⟩ := hspec
  obtain ⟨rfl, rfl⟩ := Prod.mk.inj (Option.some.inj (hp'.symm.trans (hext.functionPattern? hp)))
  obtain ⟨rfl, rfl, -⟩ := DeclForm.function.inj (hform.symm.trans hnew.form)
  obtain ⟨us, r'', hutype, hus⟩ := hg''.function_type hform
  obtain rfl : r'' = r' := by
    rw [functionRet?, hutype] at hret'
    exact Option.some.inj hret'
  have ht : g.contains t = true := contains_of_type_ne (by rw [htype]; rintro ⟨⟩)
  have hu : g''.contains u' = true := contains_of_type_ne (by rw [hutype]; rintro ⟨⟩)
  have hts' : ps.map g''.objectParamType? = ts.map some := by
    rw [← hts]
    exact List.map_congr_left fun p hmem =>
      hext.objectParamType? (contains_of_map_objectParamType? hts hmem)
  exact ⟨u', qs', hnew, hg''.substitutes_function hret.fits (hext.contains ht)
    ((hext.type ht).trans htype) hu hutype (ParamSubstitutes.types hparams hts' hus) hret, hparams⟩

end Graph
end SemanticCore
