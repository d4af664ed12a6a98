import SemanticCore.Proofs.Template.Signature

/-!
# Specializing to deduced arguments

Specializing a function template can fail for want of an argument, or because a parameter of its
function is no object parameter.  The second does not happen in a graph that a client can build, and
the first does not happen after a deduction, which binds every template parameter.

`Attempt.Succeeds` has the rules for computations that succeed, which are those of `Attempt.Yields`
with success in place of "if it succeeds".
-/

set_option autoImplicit false
namespace SemanticCore

open SemanticCore.Graph

variable {α β ε ε' : Type} {g : Graph}

/-- The computation succeeds and only adds to the graph, and its result satisfies `Q`. -/
def Attempt.Succeeds (g : Graph) (x : Attempt ε α) (Q : α → Graph → Prop) : Prop :=
  ∃ a g', x g = (.ok a, g') ∧ g.Grows g' ∧ Q a g'

namespace Attempt.Succeeds

variable {x : Attempt ε α} {f : α → Attempt ε β} {P : α → Graph → Prop} {Q : β → Graph → Prop}

theorem pure {b : β} (h : Q b g) : Succeeds g (Pure.pure b : Attempt ε β) Q :=
  ⟨b, g, rfl, .refl g, h⟩

theorem bind (hg : g.WellFormed) (hx : Succeeds g x P)
    (hf : ∀ a g', g.Grows g' → g'.WellFormed → P a g' → Succeeds g' (f a) Q) :
    Succeeds g (x >>= f) Q := by
  obtain ⟨a, g₁, hx, hgrow₁, ha⟩ := hx
  obtain ⟨b, g₂, hf, hgrow₂, hb⟩ := hf a g₁ hgrow₁ (hgrow₁.wellFormed hg) ha
  exact ⟨b, g₂, (bind_of_ok hx).trans hf, hgrow₁.trans hgrow₂, hb⟩

theorem get_bind {f : Graph → Attempt ε β} (h : Succeeds g (f g) Q) :
    Succeeds g ((get : Attempt ε Graph) >>= f) Q :=
  h

theorem pure_bind {a : α} (h : Succeeds g (f a) Q) : Succeeds g (Pure.pure a >>= f) Q :=
  h

theorem lift {x : Build β} (hx : Build.Yields g x Q) : Succeeds g (liftM x : Attempt ε β) Q :=
  ⟨(x g).1, (x g).2, rfl, hx.1, hx.2⟩

theorem of_yields {x : Attempt ε β} (hx : Yields g x Q) (hok : ∃ b g', x g = (.ok b, g')) :
    Succeeds g x Q := by
  obtain ⟨b, g', hb⟩ := hok
  rw [Yields, Build.Yields, hb] at hx
  exact ⟨b, g', hb, hx.1, hx.2 b rfl⟩

theorem adapt {k : ε → ε'} (hx : Succeeds g x P) : Succeeds g (x.adapt k : Attempt ε' α) P := by
  obtain ⟨a, g', hx, h⟩ := hx
  have hrun : (x.adapt k : Attempt ε' α) g = ((x g).1.mapError k, (x g).2) := rfl
  rw [hx] at hrun
  exact ⟨a, g', hrun, h⟩

/-- A list of computations that succeed. -/
theorem mapM {P : β → Graph → Prop} (hP : ∀ {g g' b}, Graph.Grows g g' → P b g → P b g')
    {f : α → Attempt ε β} (as : List α) {g : Graph} (hg : g.WellFormed)
    (h : ∀ a ∈ as, ∀ g', g.Grows g' → g'.WellFormed → Succeeds g' (f a) P) :
    Succeeds g (as.mapM f) fun bs g' => ∀ b ∈ bs, P b g' := by
  induction as generalizing g with
  | nil =>
    rw [List.mapM_nil]
    exact .pure (by simp)
  | cons a as ih =>
    rw [List.mapM_cons]
    refine .bind hg (h a List.mem_cons_self g (.refl g) hg) fun b g₁ hgrow hg₁ hb => ?_
    have hrest := ih hg₁ fun x hx g' hgrow' =>
      h x (List.mem_cons_of_mem _ hx) g' (hgrow.trans hgrow')
    exact .bind hg₁ hrest fun bs g₂ hgrow' _ hbs =>
      .pure (List.forall_mem_cons.2 ⟨hP hgrow' hb, hbs⟩)

end Attempt.Succeeds

/-! ## Substitutions without gaps -/

theorem mapM_eq_ok_of_forall {f : α → Except ε β} {as : List α}
    (h : ∀ a ∈ as, ∃ b, f a = .ok b) : ∃ bs, as.mapM f = .ok bs := by
  induction as with
  | nil => exact ⟨[], rfl⟩
  | cons a as ih =>
    obtain ⟨⟨b, hb⟩, has⟩ := List.forall_mem_cons.1 h
    obtain ⟨bs, hbs⟩ := ih has
    refine ⟨b :: bs, ?_⟩
    rw [List.mapM_cons, hb, hbs]
    rfl

theorem Substitution.exists_args {s : Substitution}
    (h : ∀ d ∈ s.params, s.isBound d = true) : ∃ args, s.args = .ok args := by
  refine mapM_eq_ok_of_forall fun d hd => ?_
  obtain ⟨a, ha⟩ := Option.isSome_iff_exists.1 (h d hd)
  exact ⟨a, by rw [ha]⟩

/-! ## Specializing -/

/-- The declaration is an object parameter. -/
def Graph.IsObjectParam (g : Graph) (d : DeclHandle) : Prop :=
  ∃ t, g.objectParamType? d = some t

theorem Graph.IsObjectParam.extend {g' : Graph} {d : DeclHandle} (hd : g.IsObjectParam d)
    (h : g.Extends g') : g'.IsObjectParam d := by
  obtain ⟨t, ht⟩ := hd
  exact ⟨t, (h.objectParamType? (contains_of_objectParamType? ht)).trans ht⟩

theorem Graph.isTemplateDecl_of_functionPattern? {d : DeclHandle}
    {pattern : List DeclHandle × TypeHandle} (h : g.functionPattern? d = some pattern) :
    g.isTemplateDecl d = true := by
  rw [functionPattern?] at h
  split at h
  · next hf => rw [isTemplateDecl, hf]
  · cases h

/-- The parameters of a function are object parameters. -/
theorem Graph.WellFormed.isObjectParam_of_functionPattern? (hg : g.WellFormed) {d : DeclHandle}
    {params : List DeclHandle} {ret : TypeHandle}
    (h : g.functionPattern? d = some (params, ret)) : ∀ p ∈ params, g.IsObjectParam p := by
  intro p hp
  rw [functionPattern?] at h
  split at h
  · split at h
    · next pattern _ _ _ t ps defn hf =>
      obtain ⟨r, -, heq⟩ := Option.map_eq_some_iff.1 h
      cases heq
      obtain ⟨ts, ret, -, hmap⟩ := hg.function_type hf
      obtain ⟨t, -, ht⟩ := List.mem_map.1 (hmap ▸ List.mem_map_of_mem hp)
      exact ⟨t, ht.symm⟩
    · cases h
  · cases h

namespace Attempt.Succeeds

variable {s : Substitution}

theorem templateName {d : DeclHandle} {args : List Term} (hd : g.isTemplateDecl d = true)
    (ha : ∀ a ∈ args, a.Fits g) :
    Succeeds g (Build.templateName d args) fun n g' => g'.contains n = true := by
  refine .get_bind ?_
  rw [if_pos hd]
  exact .lift (Build.Makes.name (f := .template d args) ⟨hd, ha⟩)

theorem specializeParam (hg : g.WellFormed) (hs : s.Fits g) {p : DeclHandle}
    (hp : g.IsObjectParam p) :
    Succeeds g (Build.specializeParam s p) fun q g' => g'.IsObjectParam q := by
  obtain ⟨t, ht⟩ := hp
  have hmem := contains_of_objectParamType? ht
  refine .get_bind ?_
  rw [ht]
  refine .get_bind (.bind hg (.lift (Build.Makes.substitute hg hs
    (hg.contains_objectParamType? ht))) fun u g₁ hgrow hg₁ hu => .lift ?_)
  obtain ⟨hgrow₁, -, hq⟩ := Build.Yields.decl (hgrow.contains (hg.placed p hmem).1)
    (f := .objectParam u) hu
  exact ⟨hgrow₁, u, by rw [objectParamType?, Build.objectParam, hq]⟩

theorem functionDecl (hg : g.WellFormed) {n : NameHandle} {params : List DeclHandle}
    {ret : TypeHandle} (hn : g.contains n = true) (hp : ∀ p ∈ params, g.IsObjectParam p)
    (hr : g.contains ret = true) :
    Succeeds g (Build.functionDecl n params ret) fun d g' => g'.contains d = true := by
  have hsome : ∀ p ∈ params, g.objectParamType? p ≠ none := fun p hmem hnone => by
    obtain ⟨t, ht⟩ := hp p hmem
    rw [ht] at hnone
    cases hnone
  have htypes := objectParamTypes_eq (map_eq_map_some hsome)
  have htype := Attempt.bind_of_ok (f := fun ts => liftM (Build.functionTypeOf ts ret)) htypes
  exact .of_yields (Attempt.Makes.functionDecl hg hn hr) ⟨_, _, Attempt.bind_of_ok htype⟩

/-- **Specializing succeeds** if every template parameter has an argument. -/
theorem specialize (hg : g.WellFormed) (hs : s.Fits g) (hbound : ∀ d ∈ s.params, s.isBound d = true)
    {template : DeclHandle} {params : List DeclHandle} {ret : TypeHandle}
    (hpattern : g.functionPattern? template = some (params, ret)) :
    Succeeds g (Build.specialize template s) fun spec g' =>
      g'.IsSpecialization template s spec := by
  obtain ⟨args, hargs⟩ := Substitution.exists_args hbound
  have hp := hg.isObjectParam_of_functionPattern? hpattern
  have hret := hg.contains_functionPattern? hpattern
  refine .of_yields (.specialize hg template hs) ?_
  suffices h : Succeeds g (Build.specialize template s) fun _ _ => True by
    obtain ⟨spec, g', h, -⟩ := h
    exact ⟨spec, g', h⟩
  have htemplate : g.isTemplateDecl template = true := isTemplateDecl_of_functionPattern? hpattern
  refine .get_bind ?_
  rw [hpattern]
  dsimp only
  rw [hargs]
  have hname := templateName htemplate (hs.args hargs)
  refine .pure_bind (.bind hg hname.adapt fun n g₁ hgrow₁ hg₁ hn => ?_)
  have hs₁ := hs.extend hgrow₁.extends
  have hparams := Succeeds.mapM (P := fun (q : DeclHandle) (g' : Graph) => g'.IsObjectParam q)
    (fun h hq => hq.extend h.extends) params hg₁ fun p hmem g' hgrow hg' => specializeParam hg'
      (hs₁.extend hgrow.extends) ((hp p hmem).extend (hgrow₁.trans hgrow).extends)
  refine .bind hg₁ hparams fun ps g₂ hgrow₂ hg₂ hps => ?_
  have hgrow := hgrow₁.trans hgrow₂
  refine .bind hg₂ (.lift (Build.Makes.substitute hg₂ (hs.extend hgrow.extends)
    (hgrow.contains hret))) fun r g₃ hgrow₃ hg₃ hr => ?_
  refine .bind hg₃ (functionDecl hg₃ (hgrow₃.contains (hgrow₂.contains hn))
    (fun q hq => (hps q hq).extend hgrow₃.extends) hr).adapt fun spec g₄ _ hg₄ hspec => ?_
  refine .bind hg₄ (.lift (.setContexts ps hg₄ hspec)) fun _ g₅ _ hg₅ _ => .get_bind ?_
  split
  · next context hcontext =>
    exact .bind hg₅ (.lift (.setContext spec (hg₅.contains_context hcontext)))
      fun _ _ _ _ _ => .pure trivial
  · exact .pure trivial

end Attempt.Succeeds
end SemanticCore
