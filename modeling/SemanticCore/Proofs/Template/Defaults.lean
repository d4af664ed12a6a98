import SemanticCore.Proofs.Action.Reachable
import SemanticCore.Proofs.Template.Success
import SemanticCore.Proofs.Type.Mention

/-!
# Template parameters that defaults leave behind

What deduction binds comes from the arguments of the call or from a default.  Defaults are used one
after another, and each is instantiated with what is bound when its turn comes.  A default that
mentions a parameter further down the list, one that no argument has determined, keeps it: this
parameter is then part of what is deduced, although it gets an argument of its own a moment later.

* `Graph.DefaultsInOrder` — no default is used before the parameters that it mentions.
* `Graph.WellFormed.fillDefaults_avoid_iff` — filling in defaults leaves no parameter behind exactly
  if they are in order.
* `Graph.deduction_avoids_parameters_iff` — **the same for the call of a function template**, and
  for the function type of its specialization.
-/

set_option autoImplicit false
namespace SemanticCore

namespace Graph

/-- The type mentions none of the parameters. -/
def Avoids (g : Graph) (ds : List DeclHandle) (t : TypeHandle) : Prop :=
  ∀ d ∈ ds, ¬ (g.typeTree t).Mentions d

/-- The parameter occurs in the type of a function parameter, so an argument determines it. -/
def IsDeduced (g : Graph) (params : List DeclHandle) (d : DeclHandle) : Prop :=
  ∃ p ∈ params, (g.paramTree p).Mentions d

/-- The defaults are used in order for the parameters of the list that are not given: what a default
mentions of the parameters `own` is given or stands earlier in the list. -/
def DefaultsInOrder (g : Graph) (own : List DeclHandle) (given : DeclHandle → Prop)
    (ds : List DeclHandle) : Prop :=
  ∀ (i : Nat) (d : DeclHandle) (t : TypeHandle), ds[i]? = some d → ¬ given d →
    g.typeDefault? d = some t → ∀ e ∈ own, (g.typeTree t).Mentions e → given e ∨ e ∈ ds.take i

end Graph

namespace Substitution

/-- No type that the substitution binds mentions any of the parameters. -/
def Avoids (s : Substitution) (g : Graph) (ds : List DeclHandle) : Prop :=
  ∀ d t, s.type? d = some t → g.Avoids ds t

theorem get?_of_type? {s : Substitution} {d : DeclHandle} {t : TypeHandle}
    (h : s.type? d = some t) : s.get? d = some (.type t) := by
  rw [type?] at h
  split at h
  · next heq => rw [heq, Option.some.inj h]
  · cases h

theorem Typed.isBound_eq_false {g : Graph} {s : Substitution} (hs : s.Typed g) {d : DeclHandle} :
    s.isBound d = false ↔ s.type? d = none := by
  rw [isBound, type?]
  cases hget : s.get? d with
  | none => simp
  | some a =>
    obtain ⟨-, t, rfl, -⟩ := hs d a hget
    simp

/-- One more parameter is bound, to a type of the grown graph. -/
theorem Typed.cons {g g' : Graph} {s : Substitution} (hs : s.Typed g) (h : g.Extends g')
    {d : DeclHandle} (hd : d ∈ s.params) {t : TypeHandle} (ht : g'.contains t = true) :
    Typed g' { s with bindings := (d, .type t) :: s.bindings } := by
  intro x a hx
  rw [get?_cons] at hx
  split at hx
  · next heq =>
    cases hx
    exact ⟨heq ▸ hd, t, rfl, ht⟩
  · obtain ⟨hparam, u, rfl, hu⟩ := hs x a hx
    exact ⟨hparam, u, rfl, h.contains hu⟩

theorem isBound_cons {s : Substitution} {d x : DeclHandle} {a : Term} :
    isBound { s with bindings := (d, a) :: s.bindings } x = true ↔ s.isBound x = true ∨ x = d := by
  rw [isBound, get?_cons, isBound]
  split
  · next heq => simp [heq]
  · next hne => simp [hne]

theorem type?_cons {s : Substitution} {d x : DeclHandle} {t : TypeHandle} :
    type? { s with bindings := (d, .type t) :: s.bindings } x =
      if x = d then some t else s.type? x := by
  rw [type?, get?_cons]
  by_cases h : x = d
  · rw [if_pos h, if_pos h]
  · rw [if_neg h, if_neg h, type?]

end Substitution

namespace Graph

variable {g g' g'' : Graph} {own ds tparams params : List DeclHandle} {args : List ExprHandle}
  {s s' : Substitution} {d : DeclHandle} {t u : TypeHandle}

/-! ## Defaults in order -/

theorem DefaultsInOrder.congr {given given' : DeclHandle → Prop} (hds : ∀ d ∈ ds, d ∈ own)
    (h : ∀ d ∈ own, given d ↔ given' d) :
    g.DefaultsInOrder own given ds ↔ g.DefaultsInOrder own given' ds := by
  refine forall₄_congr fun i d t hi => ?_
  rw [h d (hds d (List.mem_of_getElem? hi))]
  refine forall₂_congr fun _ _ => forall₂_congr fun e he => ?_
  rw [h e he]

/-- A parameter that is given needs no default. -/
theorem defaultsInOrder_cons_given {given : DeclHandle → Prop} (hd : given d) :
    g.DefaultsInOrder own given (d :: ds) ↔ g.DefaultsInOrder own given ds := by
  constructor
  · intro h i x t hi hx ht e he hm
    rcases h (i + 1) x t hi hx ht e he hm with hgiven | htake
    · exact .inl hgiven
    · rcases List.mem_cons.1 htake with rfl | htake
      · exact .inl hd
      · exact .inr htake
  · intro h i x t hi hx ht e he hm
    cases i with
    | zero => cases hi; exact absurd hd hx
    | succ i => exact (h i x t hi hx ht e he hm).imp_right (List.mem_cons_of_mem d)

/-- The first parameter needs its default, which may mention only what is given, and is given from
then on. -/
theorem defaultsInOrder_cons_open {given : DeclHandle → Prop} (hd : ¬ given d)
    (ht : g.typeDefault? d = some t) :
    g.DefaultsInOrder own given (d :: ds) ↔
      (∀ e ∈ own, (g.typeTree t).Mentions e → given e) ∧
        g.DefaultsInOrder own (fun x => given x ∨ x = d) ds := by
  constructor
  · intro h
    refine ⟨fun e he hm => (h 0 d t rfl hd ht e he hm).resolve_right (by simp), ?_⟩
    intro i x u hi hx hu e he hm
    rcases h (i + 1) x u hi (fun hgiven => hx (.inl hgiven)) hu e he hm with hgiven | htake
    · exact .inl (.inl hgiven)
    · rcases List.mem_cons.1 htake with rfl | htake
      · exact .inl (.inr rfl)
      · exact .inr htake
  · rintro ⟨hfirst, hrest⟩ i x u hi hx hu e he hm
    by_cases hxd : x = d
    · rw [hxd, ht] at hu
      cases hu
      exact .inl (hfirst e he hm)
    · cases i with
      | zero => cases hi; exact absurd rfl hxd
      | succ i =>
        rcases hrest i x u hi (by simp [hx, hxd]) hu e he hm with (hgiven | rfl) | htake
        · exact .inl hgiven
        · exact .inr List.mem_cons_self
        · exact .inr (List.mem_cons_of_mem d htake)

/-! ## Types of a growing graph -/

theorem WellFormed.avoids_extend (hg : g.WellFormed) (h : g.Extends g')
    (ht : g.contains t = true) : g'.Avoids own t ↔ g.Avoids own t := by
  rw [Avoids, Avoids, hg.typeTree_extend h ht]

theorem WellFormed.substitutionAvoids_extend (hg : g.WellFormed) (h : g.Extends g')
    (hs : s.Fits g) : s.Avoids g' own ↔ s.Avoids g own :=
  forall₂_congr fun _ _ => forall_congr' fun ht => hg.avoids_extend h (hs.type? ht)

theorem WellFormed.defaultsInOrder_extend (hg : g.WellFormed) (h : g.Extends g')
    {given : DeclHandle → Prop} (hds : ∀ d ∈ ds, g.contains d = true) :
    g'.DefaultsInOrder own given ds ↔ g.DefaultsInOrder own given ds := by
  refine forall₄_congr fun i d t hi => forall_congr' fun _ => ?_
  rw [h.typeDefault? (hds d (List.mem_of_getElem? hi))]
  refine forall_congr' fun ht => ?_
  rw [hg.typeTree_extend h (hg.contains_typeDefault? ht)]

/-! ## Filling in defaults -/

/-- **A default keeps the parameters that have no argument yet**, and no others. -/
theorem WellFormed.mentions_substitute (hg : g.WellFormed) (hs : s.Typed g)
    (havoid : s.Avoids g own) (ht : g.contains t = true) {e : DeclHandle} (he : e ∈ own) :
    ((Build.substitute s t g).2.typeTree (Build.substitute s t g).1).Mentions e ↔
      (g.typeTree t).Mentions e ∧ s.isBound e = false := by
  rw [(Build.Settles.substitute hg hs.fits ht).yields.2.2, TypeTree.mentions_instantiate]
  constructor
  · rintro ⟨x, hx, hmentions⟩
    cases hget : s.type? x with
    | some u =>
      rw [Substitution.tree?, hget] at hmentions
      exact absurd hmentions (havoid x u hget e he)
    | none =>
      rw [Substitution.tree?, hget] at hmentions
      obtain rfl := TypeTree.mentions_typename.1 hmentions
      exact ⟨hx, hs.isBound_eq_false.2 hget⟩
  · rintro ⟨hmentions, hopen⟩
    refine ⟨e, hmentions, ?_⟩
    rw [Substitution.tree?, hs.isBound_eq_false.1 hopen]
    exact .here

/-- Defaults are types, so what is bound in the end are types. -/
theorem WellFormed.typed_fillDefaults (ds : List DeclHandle) {g g' : Graph} {s s' : Substitution}
    (hg : g.WellFormed) (hs : s.Typed g) (hds : ∀ d ∈ ds, d ∈ s.params)
    (h : ds.foldlM Build.fillDefault s g = (.ok s', g')) : s'.Typed g' := by
  induction ds generalizing g s with
  | nil =>
    cases h
    exact hs
  | cons d ds ih =>
    obtain ⟨hd, hds⟩ := List.forall_mem_cons.1 hds
    rw [List.foldlM_cons] at h
    cases hb : s.isBound d with
    | true =>
      rw [Attempt.bind_of_ok (Build.fillDefault_bound hb)] at h
      exact ih hg hs hds h
    | false =>
      cases hdefault : g.typeDefault? d with
      | none =>
        rw [Attempt.bind_of_error (Build.fillDefault_none hb hdefault)] at h
        cases h
      | some t =>
        rw [Attempt.bind_of_ok (Build.fillDefault_some hb hdefault)] at h
        obtain ⟨hgrow, hu⟩ := Build.Makes.substitute hg hs.fits (hg.contains_typeDefault? hdefault)
        exact ih (hgrow.wellFormed hg) (hs.cons hgrow.extends hd hu) hds h

/-- **Filling in defaults leaves no parameter behind exactly if they are in order.** -/
theorem WellFormed.fillDefaults_avoid_iff (ds : List DeclHandle) {g g' : Graph}
    {s s' : Substitution} (hg : g.WellFormed) (hs : s.Typed g) (hparams : s.params = own)
    (hown : ∀ d ∈ own, g.contains d = true) (hds : ∀ d ∈ ds, d ∈ own) (havoid : s.Avoids g own)
    (h : ds.foldlM Build.fillDefault s g = (.ok s', g')) :
    s'.Avoids g' own ↔ g.DefaultsInOrder own (fun d => s.isBound d = true) ds := by
  induction ds generalizing g s with
  | nil =>
    cases h
    exact iff_of_true havoid fun i d t hi => by cases hi
  | cons d ds ih =>
    obtain ⟨hd, hds⟩ := List.forall_mem_cons.1 hds
    rw [List.foldlM_cons] at h
    cases hb : s.isBound d with
    | true =>
      rw [Attempt.bind_of_ok (Build.fillDefault_bound hb)] at h
      exact (ih hg hs hparams hown hds havoid h).trans (defaultsInOrder_cons_given hb).symm
    | false =>
      cases hdefault : g.typeDefault? d with
      | none =>
        rw [Attempt.bind_of_error (Build.fillDefault_none hb hdefault)] at h
        cases h
      | some t =>
        have ht := hg.contains_typeDefault? hdefault
        have hrun := Build.fillDefault_some hb hdefault
        rw [Attempt.bind_of_ok hrun] at h
        obtain ⟨hgrow, hu, -⟩ := (Build.Settles.substitute hg hs.fits ht).yields
        have hkey := fun e he => hg.mentions_substitute (e := e) hs havoid ht he
        generalize Build.substitute s t g = r at h hgrow hu hkey
        obtain ⟨u, g₁⟩ := r
        have hg₁ := hgrow.wellFormed hg
        have hs₁ := hs.cons hgrow.extends (hparams ▸ hd) hu
        have hown₁ : ∀ x ∈ own, g₁.contains x = true := fun x hx => hgrow.contains (hown x hx)
        have hfirst : g₁.Avoids own u ↔
            ∀ e ∈ own, (g.typeTree t).Mentions e → s.isBound e = true :=
          forall₂_congr fun e he => by rw [hkey e he, not_and, Bool.not_eq_false]
        rw [defaultsInOrder_cons_open (by rw [hb]; exact Bool.false_ne_true) hdefault, ← hfirst]
        by_cases hu' : g₁.Avoids own u
        · have havoid₁ : Substitution.Avoids
              { s with bindings := (d, .type u) :: s.bindings } g₁ own := by
            intro x v hv
            rw [Substitution.type?_cons] at hv
            split at hv
            · cases hv
              exact hu'
            · exact (hg.avoids_extend hgrow.extends (hs.fits.type? hv)).2 (havoid x v hv)
          rw [ih hg₁ hs₁ hparams hown₁ hds havoid₁ h, and_iff_right hu',
            hg.defaultsInOrder_extend hgrow.extends fun x hx => hown x (hds x hx)]
          exact DefaultsInOrder.congr hds fun _ _ => Substitution.isBound_cons
        · -- the parameter that was left behind stays in what is bound to the end
          refine iff_of_false (fun hall => hu' ?_) fun hall => hu' hall.1
          have hyield := Attempt.Yields.fillDefaults ds hg₁ hs₁.fits
          rw [Attempt.Yields, Build.Yields, h] at hyield
          obtain ⟨hgrow', hle⟩ := hyield
          have hget := (hle s' rfl).2.1.get? d (.type u) (by rw [Substitution.get?_cons, if_pos rfl])
          refine (hg₁.avoids_extend hgrow'.extends hu).1 (hall d u ?_)
          rw [Substitution.type?, hget]

/-! ## Calls -/

/-- What matching binds is part of the type of an argument. -/
theorem WellFormed.matchArgs_avoids (hg : g.WellFormed) (hlen : params.length = args.length)
    (ha : ∀ a ∈ args, g.contains a = true) (hfree : ∀ a ∈ args, g.Avoids own (g.exprType a))
    (hm : g.matchArgs params args (.ofParams tparams) = .ok s) : s.Avoids g own := by
  intro d t ht e he hmentions
  have hp := objectParam_of_matchArgs hlen hm
  obtain ⟨θ, hsol, -, hagree⟩ := hg.exists_solution_of_matchArgs hlen ha hm
  have hget : s.get? d = some (.type t) := Substitution.get?_of_type? ht
  have hbound : s.isBound d = true := by rw [Substitution.isBound, hget]; rfl
  obtain ⟨hd, p, hmem, hoccurs⟩ := (hg.isBound_matchArgs hlen hp ha hm d).1 hbound
  obtain ⟨i, hi⟩ := List.mem_iff_getElem?.1 hmem
  obtain ⟨a, hi'⟩ : ∃ a, args[i]? = some a := by
    have hlt := (List.getElem?_eq_some_iff.1 hi).1
    exact ⟨_, List.getElem?_eq_getElem (hlen ▸ hlt)⟩
  have hmem' := List.mem_of_getElem? hi'
  have htheta := Term.type.inj (hagree d _ hget)
  have harg : (g.argTree a).Mentions e := by
    rw [← hsol.2 i p a hi hi']
    exact TypeTree.mentions_replace hoccurs hd (by rwa [← htheta])
  rw [argTree, argType, hg.typeTree_valueType (hg.contains_exprType (ha a hmem'))] at harg
  exact hfree a hmem' e he (TypeTree.mentions_of_value harg)

/-- A deduction first matches the arguments and then fills in defaults; what it binds in either
step are types. -/
theorem WellFormed.typed_deduce (hg : g.WellFormed) (ha : ∀ a ∈ args, g.contains a = true)
    (h : Build.deduce tparams params args g = (.ok s, g')) : s.Typed g' ∧ s.params = tparams := by
  obtain ⟨hlen, s₁, hm, hfill⟩ := Build.deduce_ok h
  have hmatch := hg.matches_matchArgs tparams (objectParam_of_matchArgs hlen hm) ha
  have htyped := hmatch.typed rfl (typed_ofParams g tparams) hm
  have hparams : s₁.params = tparams := (hmatch.le rfl hm).params
  have hyield := Attempt.Yields.fillDefaults tparams hg htyped.fits
  rw [Attempt.Yields, Build.Yields, hfill] at hyield
  exact ⟨hg.typed_fillDefaults tparams htyped (fun _ hd => hparams.symm ▸ hd) hfill,
    (hyield.2 s rfl).2.1.params.trans hparams⟩

/-- **Deduction binds no type that mentions a parameter of the template exactly if the defaults are
used in order.** -/
theorem WellFormed.deduce_avoids_iff (hg : g.WellFormed) (htp : ∀ d ∈ tparams, g.contains d = true)
    (ha : ∀ a ∈ args, g.contains a = true) (hfree : ∀ a ∈ args, g.Avoids tparams (g.exprType a))
    (h : Build.deduce tparams params args g = (.ok s, g')) :
    s.Avoids g' tparams ↔ g.DefaultsInOrder tparams (g.IsDeduced params) tparams := by
  obtain ⟨hlen, s₁, hm, hfill⟩ := Build.deduce_ok h
  have hp := objectParam_of_matchArgs hlen hm
  have hmatch := hg.matches_matchArgs tparams hp ha
  have htyped := hmatch.typed rfl (typed_ofParams g tparams) hm
  have hparams : s₁.params = tparams := (hmatch.le rfl hm).params
  rw [hg.fillDefaults_avoid_iff tparams htyped hparams htp (fun _ hd => hd)
    (hg.matchArgs_avoids hlen ha hfree hm) hfill]
  refine DefaultsInOrder.congr (fun _ hd => hd) fun d hd => ?_
  rw [hg.isBound_matchArgs hlen hp ha hm, and_iff_right hd]
  rfl

/-- Arguments that mention no parameter leave none of those that they are given for. -/
theorem Substitutes.avoids (hg : g.WellFormed) (hu : g.Substitutes s t u)
    (hbound : ∀ e ∈ own, ∃ v, s.type? e = some v) (havoid : s.Avoids g own) : g.Avoids own u := by
  intro e he hmentions
  rw [(hu.typeTree hg).2, TypeTree.mentions_instantiate] at hmentions
  obtain ⟨x, -, hx⟩ := hmentions
  cases hget : s.type? x with
  | some v =>
    rw [Substitution.tree?, hget] at hx
    exact havoid x v hget e he hx
  | none =>
    rw [Substitution.tree?, hget] at hx
    obtain rfl := TypeTree.mentions_typename.1 hx
    obtain ⟨v, hv⟩ := hbound e he
    rw [hget] at hv
    cases hv

/-- A function type mentions what its parameter types and its return type mention. -/
theorem WellFormed.avoids_function (hg : g.WellFormed) {ts : List TypeHandle} {r : TypeHandle}
    (ht : g.type t = .function ts r) (hts : ∀ p ∈ ts, g.Avoids own p) (hr : g.Avoids own r) :
    g.Avoids own t := by
  intro e he hmentions
  have hc : g.contains t = true := contains_of_type_ne (by rw [ht]; rintro ⟨⟩)
  rw [hg.mentions_iff hc, ht] at hmentions
  obtain h | ⟨p, hp, h⟩ := hmentions
  · cases h
  · rcases List.mem_append.1 hp with hp | hp
    · exact hts p hp e he h
    · exact hr e he (List.mem_singleton.1 hp ▸ h)

/-- The function type of a specialization mentions none of the parameters, if the arguments mention
none. -/
theorem IsSpecialization.avoids (hg : g.WellFormed) {template spec : DeclHandle}
    (hspec : g.IsSpecialization template s spec) {defn : Option DefHandle}
    (hform : (g.decl spec).form = .function t params defn)
    (hbound : ∀ e ∈ own, ∃ v, s.type? e = some v) (havoid : s.Avoids g own) : g.Avoids own t := by
  obtain ⟨ps, r, _, _, _, ret, -, hform', hret, hparams, hsub⟩ := hspec
  cases hform'.symm.trans hform
  obtain ⟨ts, r', ht, hmap⟩ := hg.function_type hform
  rw [functionRet?, ht] at hret
  cases hret
  have hall : ∀ q ∈ params, ∀ u, g.objectParamType? q = some u → g.Avoids own u :=
    forall_right_of_forall₂ hparams fun p q hpq u hu => by
      obtain ⟨t₀, u₀, -, hu₀, hsubst⟩ := hpq
      cases hu₀.symm.trans hu
      exact hsubst.avoids hg hbound havoid
  refine hg.avoids_function ht (fun v hv => ?_) (hsub.avoids hg hbound havoid)
  obtain ⟨q, hq, hqv⟩ := List.mem_map.1 (hmap.symm ▸ List.mem_map_of_mem (f := some) hv)
  exact hall q hq v hqv

/-- **A call of a function template leaves no template parameter in the types of its deduced
arguments exactly if the defaults are used in order.**  Then there is none in the function type of
the specialization either. -/
theorem deduction_avoids_parameters_iff (hg : g.Reachable) {template pattern : DeclHandle}
    {constraint : Option ExprHandle} {ret : TypeHandle}
    (htemplate : (g.decl template).form = .template tparams pattern constraint)
    (hpattern : g.functionPattern? template = some (params, ret))
    (ha : ∀ a ∈ args, g.contains a = true)
    (hfree : ∀ a ∈ args, g.Avoids tparams (g.exprType a))
    (hdeduce : Oracle.structural.deduce tparams params args g = (.ok s, g')) :
    ((∀ d a, s.get? d = some a → ∃ t, a = .type t ∧ g'.Avoids tparams t) ↔
        g.DefaultsInOrder tparams (g.IsDeduced params) tparams) ∧
      ∃ spec g'', Oracle.structural.specialize template s g' = (.ok spec, g'') ∧
        ∃ t params' defn, (g''.decl spec).form = .function t params' defn ∧
          (g.DefaultsInOrder tparams (g.IsDeduced params) tparams → g''.Avoids tparams t) := by
  have hw := hg.wellFormed
  have htp := (hw.contains_template htemplate).1
  have hiff := hw.deduce_avoids_iff htp ha hfree hdeduce
  obtain ⟨hgrow, hfits⟩ := hw.yields_deduce tparams params ha
  rw [show Build.deduce tparams params args g = (.ok s, g') from hdeduce] at hgrow hfits
  have hw' := hgrow.wellFormed hw
  obtain ⟨htyped, hparams⟩ := hw.typed_deduce ha hdeduce
  have hbound := (hw.deduce_solution ha hdeduce).1
  refine ⟨Iff.trans ?_ hiff, ?_⟩
  · constructor
    · intro hall d t ht
      obtain ⟨u, hu, havoid⟩ := hall d _ (Substitution.get?_of_type? ht)
      rwa [Term.type.inj hu]
    · intro havoid d a hget
      obtain ⟨-, t, rfl, -⟩ := htyped d a hget
      exact ⟨t, rfl, havoid d t (by rw [Substitution.type?, hget])⟩
  · have hpattern' := hgrow.extends.functionPattern? hpattern
    obtain ⟨spec, g'', hrun, hgrow', hspec⟩ :=
      Attempt.Succeeds.specialize hw' (hfits s rfl) (hparams.symm ▸ hbound) hpattern'
    have hw'' := hgrow'.wellFormed hw'
    obtain ⟨_, _, t, params', defn, _, -, hform, -⟩ := id hspec
    refine ⟨spec, g'', hrun, t, params', defn, hform, fun horder => ?_⟩
    refine hspec.avoids hw'' hform (fun e he => ?_)
      ((hw'.substitutionAvoids_extend hgrow'.extends htyped.fits).2 (hiff.2 horder))
    exact Option.ne_none_iff_exists'.1 fun hnone => by
      have hopen := htyped.isBound_eq_false.2 hnone
      rw [hbound e he] at hopen
      cases hopen

/-- The graph of a function `T f()`, its declaration 3, and of two templates over it.  The parameter
`U`, the declaration 1, has the default `bool`, and `T`, the declaration 2, has the default `U*`.
The template 4 has the parameters in the order `T, U`, and the template 5 in the order `U, T`. -/
def pointerDefault : Graph :=
  let build : Build Unit := do
    let u ← Build.typeParam .globalName (some .bool)
    if let .ok tu ← (Build.typenameType u).run then
      let pointer ← Build.pointerType tu
      let t ← Build.typeParam .globalName (some pointer)
      if let .ok tt ← (Build.typenameType t).run then
        if let .ok f ← (Build.functionDecl .globalName [] tt).run then
          let _ ← Build.templateDecl [t, u] f none
          let _ ← Build.templateDecl [u, t] f none
  (build (.initial .empty 32)).2

theorem pointerDefault_reachable : pointerDefault.Reachable := by
  have hu := (Reachable.initial .empty 32).operation
    (x := Build.typeParam .globalName (some .bool)) (.typeParam rfl (by simp; rfl))
  have htu := hu.operation (.typenameType (d := ⟨1⟩) rfl)
  have hpointer := htu.operation (.pointerType (t := ⟨3⟩) rfl)
  have ht := hpointer.operation (x := Build.typeParam .globalName (some ⟨4⟩))
    (.typeParam rfl (by simp; rfl))
  have htt := ht.operation (.typenameType (d := ⟨2⟩) rfl)
  have hf := htt.operation (x := (Build.functionDecl .globalName [] ⟨5⟩).run)
    (.functionDecl rfl (by simp) rfl)
  have htemplate := hf.operation (x := Build.templateDecl [⟨2⟩, ⟨1⟩] ⟨3⟩ none)
    (.templateDecl (by simp; exact ⟨rfl, rfl⟩) rfl (by simp))
  exact htemplate.operation (x := Build.templateDecl [⟨1⟩, ⟨2⟩] ⟨3⟩ none)
    (.templateDecl (by simp; exact ⟨rfl, rfl⟩) rfl (by simp))

/-- What is deduced for the parameters in the order `U, T`: `U` is `bool` and `T` is `bool*`. -/
def inOrderArgs : Substitution := ⟨[⟨1⟩, ⟨2⟩], [(⟨2⟩, .type ⟨7⟩), (⟨1⟩, .type .bool)]⟩

def inOrderDeduced : Graph :=
  (Oracle.structural.deduce [⟨1⟩, ⟨2⟩] [] [] pointerDefault).2

theorem deduce_inOrder :
    Oracle.structural.deduce [⟨1⟩, ⟨2⟩] [] [] pointerDefault = (.ok inOrderArgs, inOrderDeduced) :=
  Prod.ext (by decide +kernel) rfl

/-- What is deduced for the parameters in the order `T, U`: `T` is `U*` and `U` is `bool`. -/
def outOfOrderArgs : Substitution := ⟨[⟨2⟩, ⟨1⟩], [(⟨1⟩, .type .bool), (⟨2⟩, .type ⟨4⟩)]⟩

def outOfOrderDeduced : Graph :=
  (Oracle.structural.deduce [⟨2⟩, ⟨1⟩] [] [] pointerDefault).2

theorem deduce_outOfOrder :
    Oracle.structural.deduce [⟨2⟩, ⟨1⟩] [] [] pointerDefault =
      (.ok outOfOrderArgs, outOfOrderDeduced) :=
  Prod.ext (by decide +kernel) rfl

def outOfOrderSpecialized : Graph :=
  (Oracle.structural.specialize ⟨4⟩ outOfOrderArgs outOfOrderDeduced).2

theorem specialize_outOfOrder :
    Oracle.structural.specialize ⟨4⟩ outOfOrderArgs outOfOrderDeduced =
      (.ok ⟨6⟩, outOfOrderSpecialized) :=
  Prod.ext (by decide +kernel) rfl

theorem deduction_avoids_parameters_iff_inOrder :
    pointerDefault.Reachable ∧
    (pointerDefault.decl ⟨5⟩).form = .template [⟨1⟩, ⟨2⟩] ⟨3⟩ none ∧
    pointerDefault.functionPattern? ⟨5⟩ = some ([], ⟨5⟩) ∧
    (∀ a ∈ ([] : List ExprHandle), pointerDefault.contains a = true) ∧
    (∀ a ∈ ([] : List ExprHandle), pointerDefault.Avoids [⟨1⟩, ⟨2⟩] (pointerDefault.exprType a)) ∧
    Oracle.structural.deduce [⟨1⟩, ⟨2⟩] [] [] pointerDefault = (.ok inOrderArgs, inOrderDeduced) ∧
    (((∀ d a, inOrderArgs.get? d = some a →
          ∃ t, a = .type t ∧ inOrderDeduced.Avoids [⟨1⟩, ⟨2⟩] t) ↔
        pointerDefault.DefaultsInOrder [⟨1⟩, ⟨2⟩] (pointerDefault.IsDeduced []) [⟨1⟩, ⟨2⟩]) ∧
      ∃ spec g'', Oracle.structural.specialize ⟨5⟩ inOrderArgs inOrderDeduced = (.ok spec, g'') ∧
        ∃ t params' defn, (g''.decl spec).form = .function t params' defn ∧
          (pointerDefault.DefaultsInOrder [⟨1⟩, ⟨2⟩] (pointerDefault.IsDeduced []) [⟨1⟩, ⟨2⟩] →
            g''.Avoids [⟨1⟩, ⟨2⟩] t)) := by
  have htemplate : (pointerDefault.decl ⟨5⟩).form = .template [⟨1⟩, ⟨2⟩] ⟨3⟩ none := by
    decide +kernel
  have hpattern : pointerDefault.functionPattern? ⟨5⟩ = some ([], ⟨5⟩) := by decide +kernel
  exact ⟨pointerDefault_reachable, htemplate, hpattern, by simp, by simp, deduce_inOrder,
    deduction_avoids_parameters_iff pointerDefault_reachable htemplate hpattern (by simp) (by simp)
      deduce_inOrder⟩

/-- A template parameter mentions itself. -/
theorem WellFormed.not_avoids_typename (hg : g.WellFormed) (hd : d ∈ own)
    (ht : g.type t = .typename d) : ¬ g.Avoids own t := by
  intro havoid
  have hc : g.contains t = true := contains_of_type_ne (by rw [ht]; rintro ⟨⟩)
  exact havoid d hd ((hg.mentions_iff hc).2 (.inl ht))

/-- A type mentions what its components mention. -/
theorem WellFormed.not_avoids_component (hg : g.WellFormed) (hu : u ∈ (g.type t).components)
    (h : ¬ g.Avoids own u) : ¬ g.Avoids own t := by
  intro havoid
  have hc : g.contains t = true := contains_of_type_ne fun hvoid => by rw [hvoid] at hu; cases hu
  exact h fun d hd hmentions => havoid d hd ((hg.mentions_iff hc).2 (.inr ⟨u, hu, hmentions⟩))

/-- In a graph with `U` as the type 3 and `U*` as the type 4, the latter mentions `U`. -/
theorem not_avoids_pointerDefault (hg : g.WellFormed) (hu : g.type ⟨3⟩ = .typename ⟨1⟩)
    (hpointer : g.type ⟨4⟩ = .pointer ⟨3⟩) : ¬ g.Avoids [⟨2⟩, ⟨1⟩] ⟨4⟩ := by
  refine hg.not_avoids_component (u := ⟨3⟩) ?_ (hg.not_avoids_typename (d := ⟨1⟩) (by simp) hu)
  rw [hpointer]
  exact List.mem_cons_self

/-- In the order `T, U` the type that is bound to `T` is the type 4, `U*`, and the specialization is
of the type 7, `U* ()`. -/
theorem not_avoids_parameters_outOfOrder :
    pointerDefault.Reachable ∧
    (pointerDefault.decl ⟨4⟩).form = .template [⟨2⟩, ⟨1⟩] ⟨3⟩ none ∧
    pointerDefault.functionPattern? ⟨4⟩ = some ([], ⟨5⟩) ∧
    Oracle.structural.deduce [⟨2⟩, ⟨1⟩] [] [] pointerDefault =
      (.ok outOfOrderArgs, outOfOrderDeduced) ∧
    outOfOrderArgs.type? ⟨2⟩ = some ⟨4⟩ ∧ ¬ outOfOrderDeduced.Avoids [⟨2⟩, ⟨1⟩] ⟨4⟩ ∧
    Oracle.structural.specialize ⟨4⟩ outOfOrderArgs outOfOrderDeduced =
      (.ok ⟨6⟩, outOfOrderSpecialized) ∧
    (outOfOrderSpecialized.decl ⟨6⟩).form = .function ⟨7⟩ [] none ∧
    ¬ outOfOrderSpecialized.Avoids [⟨2⟩, ⟨1⟩] ⟨7⟩ := by
  have hdeduced : outOfOrderDeduced.Reachable :=
    pointerDefault_reachable.operation (x := (Build.deduce [⟨2⟩, ⟨1⟩] [] []).run)
      (.deduce (by simp; exact ⟨rfl, rfl⟩) (by simp) (by simp))
  have hfits : outOfOrderArgs.Fits outOfOrderDeduced := by
    have hnone : ∀ a ∈ ([] : List ExprHandle), pointerDefault.contains a = true := by simp
    have h := (pointerDefault_reachable.wellFormed.yields_deduce [⟨2⟩, ⟨1⟩] [] hnone).2
    rw [show Build.deduce [⟨2⟩, ⟨1⟩] [] [] pointerDefault = _ from deduce_outOfOrder] at h
    exact h _ rfl
  have hspecialized : outOfOrderSpecialized.Reachable :=
    hdeduced.operation (x := (Build.specialize ⟨4⟩ outOfOrderArgs).run)
      (.specialize (by decide +kernel) hfits)
  refine ⟨pointerDefault_reachable, by decide +kernel, by decide +kernel, deduce_outOfOrder,
    by decide +kernel, not_avoids_pointerDefault hdeduced.wellFormed (by decide +kernel)
      (by decide +kernel), specialize_outOfOrder, by decide +kernel,
    hspecialized.wellFormed.not_avoids_component (u := ⟨4⟩) (by decide +kernel)
      (not_avoids_pointerDefault hspecialized.wellFormed (by decide +kernel)
        (by decide +kernel))⟩

end Graph
end SemanticCore
