import SemanticCore.Proofs.Template.Signature
import SemanticCore.Proofs.Type.Consistency

/-!
# Deduction from consistent arguments

Two calls of a template whose arguments have consistent types, each with arguments that deduction
accepts, are given consistent template arguments: matching solves consistent equations, the defaults
of what is left open are instantiated with what was found before, and so is the return type in the
end.  So the two calls have consistent types as well.

A deduction that is asked again adds nothing to the graph (`Graph.WellFormed.deduce_again`), so both
are read off one graph here.

* `Graph.WellFormed.deduce_consistent` — **the deduced arguments are consistent.**
* `Graph.WellFormed.ret_consistent` — the return types of the specializations are.
-/

set_option autoImplicit false
namespace SemanticCore

open SemanticCore.Graph

variable {g g' : Graph} {s s' t t' : Substitution} {d : DeclHandle}

/-- The substitutions bind the same parameters, and bind them to consistent types. -/
structure Substitution.Consistent (g : Graph) (s s' : Substitution) : Prop where
  isBound : ∀ d, s'.isBound d = s.isBound d
  tree? : ∀ d, Option.Rel TypeTree.Consistent (s.tree? g d) (s'.tree? g d)

/-- What a substitution that agrees with an assignment puts in place of a parameter. -/
theorem Substitution.Agrees.tree? {θ : DeclHandle → TypeHandle} (h : s.Agrees θ) (g : Graph)
    (d : DeclHandle) :
    s.tree? g d = if s.isBound d then some (g.typeTree (θ d)) else none := by
  rw [Substitution.tree?, type?, isBound]
  cases hd : s.get? d with
  | none => rfl
  | some a =>
    rw [h d a hd]
    rfl

/-! ## Defaults -/

namespace Build

/-- Filling in a default binds just the one parameter, to the default in which the parameters before
it are replaced. -/
theorem tree?_of_fillDefault (hg : g.WellFormed) (hs : s.Fits g) (hb : s.isBound d = false)
    {default : TypeHandle} (hd : g.typeDefault? d = some default)
    (h : fillDefault s d g = (.ok t, g)) (x : DeclHandle) :
    t.isBound x = (decide (x = d) || s.isBound x) ∧
      t.tree? g x =
        if x = d then some ((g.typeTree default).instantiate (s.tree? g)) else s.tree? g x := by
  have htree := (Settles.substitute hg hs (hg.contains_typeDefault? hd)).yields.2.2
  rw [fillDefault_some hb hd] at h
  obtain ⟨ht, hgraph⟩ := Prod.mk.inj h
  rw [hgraph] at htree
  cases ht
  rw [Substitution.isBound, Substitution.tree?, Substitution.type?, Substitution.get?_cons]
  by_cases hx : x = d
  · rw [if_pos hx, if_pos hx, decide_eq_true hx]
    exact ⟨rfl, congrArg some htree⟩
  · rw [if_neg hx, if_neg hx, decide_eq_false hx]
    exact ⟨rfl, rfl⟩

theorem consistent_of_fillDefault (hg : g.WellFormed) (hs : s.Fits g) (hs' : s'.Fits g)
    (hc : s.Consistent g s') (h : fillDefault s d g = (.ok t, g))
    (h' : fillDefault s' d g = (.ok t', g)) : t.Consistent g t' := by
  cases hb : s.isBound d with
  | true =>
    rw [fillDefault_bound hb] at h
    rw [fillDefault_bound ((hc.isBound d).trans hb)] at h'
    cases h
    cases h'
    exact hc
  | false =>
    have hb' := (hc.isBound d).trans hb
    cases hd : g.typeDefault? d with
    | none =>
      rw [fillDefault_none hb hd] at h
      cases h
    | some default =>
      have hx := tree?_of_fillDefault hg hs hb hd h
      have hx' := tree?_of_fillDefault hg hs' hb' hd h'
      refine ⟨fun x => by rw [(hx x).1, (hx' x).1, hc.isBound x], fun x => ?_⟩
      rw [(hx x).2, (hx' x).2]
      split
      · exact .some (.instantiate _ hc.tree?)
      · exact hc.tree? x

/-- Where filling in defaults adds nothing, neither does the first one, or the others. -/
theorem fillDefaults_cons (hg : g.WellFormed) (hs : s.Fits g) {ds : List DeclHandle}
    (hds : ∀ x ∈ d :: ds, g.contains x = true)
    (h : (d :: ds).foldlM fillDefault s g = (.ok t, g)) :
    ∃ s₁, fillDefault s d g = (.ok s₁, g) ∧ s₁.Fits g ∧ ds.foldlM fillDefault s₁ g = (.ok t, g) := by
  rw [List.foldlM_cons] at h
  have hyield := Attempt.Yields.fillDefault hg hs d
  rw [Attempt.Yields, Build.Yields] at hyield
  rcases hstep : fillDefault s d g with ⟨e | s₁, g₁⟩
  · rw [Attempt.bind_of_error hstep] at h
    cases h
  · rw [Attempt.bind_of_ok hstep] at h
    rw [hstep] at hyield
    obtain ⟨hgrow, hres⟩ := hyield
    have hfits := (hres s₁ rfl).1
    have hrest := (Attempt.Yields.fillDefaults ds (hgrow.wellFormed hg) hfits).1
    rw [h] at hrest
    -- the first step is done again in the last graph, which is the one that it was done in
    have hagain := fillDefault_again hg hs (hds d List.mem_cons_self) hstep hrest.extends
    cases hstep.symm.trans hagain
    exact ⟨s₁, rfl, hfits, h⟩

theorem consistent_of_fillDefaults (ds : List DeclHandle) (hg : g.WellFormed)
    (hds : ∀ x ∈ ds, g.contains x = true) (hs : s.Fits g) (hs' : s'.Fits g)
    (hc : s.Consistent g s') (h : ds.foldlM fillDefault s g = (.ok t, g))
    (h' : ds.foldlM fillDefault s' g = (.ok t', g)) : t.Consistent g t' := by
  induction ds generalizing s s' with
  | nil =>
    cases h
    cases h'
    exact hc
  | cons d ds ih =>
    obtain ⟨s₁, hstep, hs₁, hrest⟩ := fillDefaults_cons hg hs hds h
    obtain ⟨s₁', hstep', hs₁', hrest'⟩ := fillDefaults_cons hg hs' hds h'
    exact ih (fun x hx => hds x (List.mem_cons_of_mem _ hx)) hs₁ hs₁'
      (consistent_of_fillDefault hg hs hs' hc hstep hstep') hrest hrest'

end Build

/-! ## Deduction -/

namespace Graph

variable {tparams params : List DeclHandle} {args args' : List ExprHandle}

/-- The expressions have consistent types. -/
def ConsistentTypes (g : Graph) (a b : ExprHandle) : Prop :=
  (g.typeTree (g.exprType a)).Consistent (g.typeTree (g.exprType b))

/-- The arguments have consistent types, in the order in which they stand. -/
def ConsistentArgs (g : Graph) (args args' : List ExprHandle) : Prop :=
  ∀ (i : Nat) (a a' : ExprHandle), args[i]? = some a → args'[i]? = some a' →
    g.ConsistentTypes a a'

theorem WellFormed.consistent_of_matchArgs (hg : g.WellFormed)
    (hlen : params.length = args.length) (hlen' : params.length = args'.length)
    (ha : ∀ a ∈ args, g.contains a = true) (ha' : ∀ a ∈ args', g.contains a = true)
    (hargs : g.ConsistentArgs args args')
    (hm : g.matchArgs params args (.ofParams tparams) = .ok s)
    (hm' : g.matchArgs params args' (.ofParams tparams) = .ok s') : s.Consistent g s' := by
  have hp := objectParam_of_matchArgs hlen hm
  have hbound := hg.isBound_matchArgs hlen hp ha hm
  have hbound' := hg.isBound_matchArgs hlen' hp ha' hm'
  have hsame : ∀ d, s'.isBound d = s.isBound d := fun d =>
    Bool.eq_iff_iff.2 ((hbound' d).trans (hbound d).symm)
  obtain ⟨θ, hsol, -, hagree⟩ := hg.exists_solution_of_matchArgs hlen ha hm
  obtain ⟨θ', hsol', -, hagree'⟩ := hg.exists_solution_of_matchArgs hlen' ha' hm'
  refine ⟨hsame, fun d => ?_⟩
  rw [hagree.tree?, hagree'.tree?, hsame d]
  split
  · next hd =>
    obtain ⟨hmem, p, hpmem, hmentions⟩ := (hbound d).1 hd
    -- the parameter occurs in the type of some `p`, which is matched against two arguments
    obtain ⟨i, hi⟩ := List.mem_iff_getElem?.1 hpmem
    obtain ⟨hlt, -⟩ := List.getElem?_eq_some_iff.1 hi
    have hia := List.getElem?_eq_getElem (hlen ▸ hlt)
    have hia' := List.getElem?_eq_getElem (hlen' ▸ hlt)
    have hvalue := (hargs i _ _ hia hia').value
    rw [← hg.typeTree_valueType (hg.contains_exprType (ha _ (List.mem_of_getElem? hia))),
      ← hg.typeTree_valueType (hg.contains_exprType (ha' _ (List.mem_of_getElem? hia')))] at hvalue
    change (g.argTree _).Consistent (g.argTree _) at hvalue
    rw [← hsol.2 i p _ hi hia, ← hsol'.2 i p _ hi hia'] at hvalue
    exact .some (hvalue.of_replace hmem hmentions)
  · exact .none

/-- **From arguments of consistent types consistent template arguments are deduced.** -/
theorem WellFormed.deduce_consistent (hg : g.WellFormed)
    (htp : ∀ d ∈ tparams, g.contains d = true) (ha : ∀ a ∈ args, g.contains a = true)
    (ha' : ∀ a ∈ args', g.contains a = true) (hargs : g.ConsistentArgs args args')
    (h : Build.deduce tparams params args g = (.ok s, g))
    (h' : Build.deduce tparams params args' g = (.ok s', g)) : s.Consistent g s' := by
  obtain ⟨hlen, s₁, hm, hfill⟩ := Build.deduce_ok h
  obtain ⟨hlen', s₁', hm', hfill'⟩ := Build.deduce_ok h'
  have hfits : ∀ {as : List ExprHandle} {σ : Substitution}, params.length = as.length →
      (∀ a ∈ as, g.contains a = true) → g.matchArgs params as (.ofParams tparams) = .ok σ →
      σ.Fits g := fun hlen ha hm =>
    ((hg.matches_matchArgs tparams (objectParam_of_matchArgs hlen hm) ha).typed rfl
      (typed_ofParams g tparams) hm).fits
  exact Build.consistent_of_fillDefaults tparams hg htp (hfits hlen ha hm) (hfits hlen' ha' hm')
    (hg.consistent_of_matchArgs hlen hlen' ha ha' hargs hm hm') hfill hfill'

/-! ## Specializations -/

/-- The return type of a specialization is the template's with the arguments substituted. -/
theorem IsSpecialization.ret {template spec : DeclHandle} {ret r : TypeHandle}
    (hspec : g.IsSpecialization template s spec)
    (hpattern : g.functionPattern? template = some (params, ret))
    (hr : (g.declaredType? spec).bind g.functionRet? = some r) : g.Substitutes s ret r := by
  obtain ⟨_, _, fn, ps, defn, r', hpattern', hform, hret, -, hsub⟩ := hspec
  have hdeclared : g.declaredType? spec = some fn := by rw [declaredType?, hform]
  rw [hpattern] at hpattern'
  cases hpattern'
  rw [hdeclared, Option.bind_some, hret] at hr
  cases hr
  exact hsub

/-- **Specializations to consistent arguments have consistent return types.** -/
theorem WellFormed.ret_consistent (hg : g.WellFormed) {template spec spec' : DeclHandle}
    {ret r r' : TypeHandle} (hc : s.Consistent g s')
    (hpattern : g.functionPattern? template = some (params, ret))
    (hspec : g.IsSpecialization template s spec) (hspec' : g.IsSpecialization template s' spec')
    (hr : (g.declaredType? spec).bind g.functionRet? = some r)
    (hr' : (g.declaredType? spec').bind g.functionRet? = some r') :
    (g.typeTree r).Consistent (g.typeTree r') := by
  rw [((hspec.ret hpattern hr).typeTree hg).2, ((hspec'.ret hpattern hr').typeTree hg).2]
  exact .instantiate _ hc.tree?

end Graph
end SemanticCore
