import SemanticCore.Proofs.Action.Reachable
import SemanticCore.Proofs.Template.Signature

/-!
# The value types of a specialization's parameters

Deduction makes the value type of each parameter that of its argument; specializing substitutes
into the type that the parameter was declared with.  The two fit together: the parameter of the
specialization takes values of the argument's value type.  There is one exception.  If the
argument's value type is itself a reference, as it is for the name of a variable of reference type,
and the parameter was not declared as a reference, then the parameter becomes a reference, and what
it takes is the value that the reference refers to.

* `Graph.WellFormed.deduce_instantiates` — the deduced arguments make the value type of each
  parameter that of its argument.
* `Graph.specialized_paramType` — **what this makes of the declared type.**
-/

set_option autoImplicit false
namespace SemanticCore
namespace Graph

variable {g g' g'' : Graph} {tparams params : List DeclHandle} {args : List ExprHandle}
  {s : Substitution}

/-- Filling in defaults binds nothing but what is open. -/
theorem fillDefaults_bound (ds : List DeclHandle) {g g' : Graph} {s s' : Substitution}
    (h : ds.foldlM Build.fillDefault s g = (.ok s', g')) {d : DeclHandle}
    (hd : s'.isBound d = true) : s.isBound d = true ∨ d ∈ ds := by
  induction ds generalizing g s with
  | nil =>
    cases h
    exact .inl hd
  | cons x ds ih =>
    rw [List.foldlM_cons] at h
    cases hb : s.isBound x with
    | true =>
      rw [Attempt.bind_of_ok (Build.fillDefault_bound hb)] at h
      exact (ih h).imp_right (List.mem_cons_of_mem x)
    | false =>
      cases hdefault : g.typeDefault? x with
      | none =>
        rw [Attempt.bind_of_error (Build.fillDefault_none hb hdefault)] at h
        cases h
      | some t =>
        rw [Attempt.bind_of_ok (Build.fillDefault_some hb hdefault)] at h
        rcases ih h with hbound | hmem
        · rw [Substitution.isBound, Substitution.get?_cons] at hbound
          split at hbound
          · next heq => exact .inr (heq ▸ List.mem_cons_self)
          · exact .inl hbound
        · exact .inr (List.mem_cons_of_mem x hmem)

/-- **The deduced arguments make the value type of each parameter that of its argument.** -/
theorem WellFormed.deduce_instantiates (hg : g.WellFormed) (ha : ∀ a ∈ args, g.contains a = true)
    (h : Build.deduce tparams params args g = (.ok s, g')) {i : Nat} {p : DeclHandle}
    {a : ExprHandle} (hi : params[i]? = some p) (hi' : args[i]? = some a) :
    (g.paramTree p).instantiate (s.tree? g') = g.argTree a := by
  obtain ⟨hlen, s₁, hm, hfill⟩ := Build.deduce_ok h
  have hp := objectParam_of_matchArgs hlen hm
  obtain ⟨θ, hsol, hθ, -⟩ := hg.exists_solution_of_matchArgs hlen ha hm
  have hreplace := hsol.2 i p a hi hi'
  have hcontains := hg.contains_argType (ha a (List.mem_of_getElem? hi'))
  have hnormal : (g.argTree a).Normal := hg.normal_typeTree hcontains
  have hgrow := (hg.yields_deduce tparams params ha).1
  rw [h] at hgrow
  rw [← hreplace] at hnormal ⊢
  refine TypeTree.instantiate_eq_replace hnormal fun d hd => ?_
  by_cases hmem : d ∈ tparams
  · have htype := (hg.deduce_solution ha h).2 θ hsol d hmem
      ⟨p, List.mem_of_getElem? hi, hd⟩
    rw [if_pos hmem, Substitution.tree?, htype, Option.map_some,
      hg.typeTree_extend hgrow.extends (hθ d)]
  · -- a parameter of another template is bound neither by matching nor by a default
    rw [if_neg hmem, Substitution.tree?, Option.map_eq_none_iff, Substitution.type?]
    cases hget : s.get? d with
    | none => rfl
    | some b =>
      have hbound : s.isBound d = true := by rw [Substitution.isBound, hget]; rfl
      have h₁ := (fillDefaults_bound tparams hfill hbound).resolve_right hmem
      exact absurd ((hg.isBound_matchArgs hlen hp ha hm d).1 h₁).1 hmem

/-- The argument's value type is not qualified. -/
theorem WellFormed.isQualified_argTree (hg : g.WellFormed) {a : ExprHandle}
    (ha : g.contains a = true) : (g.argTree a).isQualified = false := by
  rw [argTree, hg.isQualified_typeTree (hg.contains_argType ha)]
  exact hg.isQualified_unqualified (hg.contains_nonReference (hg.contains_exprType ha))

/-- The parameter `q` of a specialization takes values of the type of the argument `a`, unless the
parameter was not declared as a reference and the argument's value type is one.  Then the parameter
has become this reference. -/
structure TakesValueOf (g : Graph) (declared : TypeHandle) (q : DeclHandle) (a : ExprHandle) :
    Prop where
  paramType_iff : g.paramType q = g.argType a ↔
    (g.isReference declared = true ∨ g.isReference (g.argType a) = false)
  reference : g.isReference declared = false → g.isReference (g.argType a) = true →
    g.objectParamType? q = some (g.argType a)

/-- What a type becomes whose value type becomes that of an argument. -/
theorem WellFormed.takesValueOf (hg : g.WellFormed) {t u : TypeHandle} {q : DeclHandle}
    {a : ExprHandle} (ha : g.contains a = true) (hq : g.objectParamType? q = some u)
    (hu : g.Substitutes s t u)
    (hinst : (g.typeTree (g.valueType t)).instantiate (s.tree? g) = g.argTree a) :
    g.TakesValueOf t q a := by
  obtain ⟨hc, htree⟩ := hu.typeTree hg
  have harg := hg.contains_argType ha
  have hplain := hg.isQualified_argTree ha
  have hrt : (g.typeTree t).isReference = g.isReference t := hg.isReference_typeTree hu.source
  have hra : (g.argTree a).isReference = g.isReference (g.argType a) := hg.isReference_typeTree harg
  have hvalue : g.paramType q = g.argType a ↔ (g.typeTree u).value = g.argTree a := by
    rw [paramType, hq, Option.getD_some, ← hg.typeTree_valueType hc, argTree]
    exact ⟨congrArg _, hg.typeTree_injective (hg.contains_valueType hc) harg⟩
  rw [hg.typeTree_valueType hu.source] at hinst
  rw [← hinst] at hplain hra
  constructor
  · rw [hvalue, htree, ← hrt, ← hra, ← hinst]
    refine ⟨fun h => ?_, TypeTree.value_instantiate hplain⟩
    by_contra hno
    rw [not_or, Bool.not_eq_true, Bool.not_eq_false] at hno
    rw [TypeTree.instantiate_of_reference hno.1 hno.2] at h
    exact TypeTree.value_ne_of_isReference hno.2 h
  · rw [← hrt, ← hra]
    intro hr hr'
    rw [hq, hg.typeTree_injective hc harg
      (htree.trans ((TypeTree.instantiate_of_reference hr hr').trans hinst))]

/-- **A parameter of the specialization has the value type of its argument**, unless it was not
declared as a reference and that value type is one: then it has become this reference. -/
theorem specialized_paramType (hg : g.Reachable) {template : DeclHandle} {ret : TypeHandle}
    (hpattern : g.functionPattern? template = some (params, ret))
    (ha : ∀ a ∈ args, g.contains a = true)
    (hdeduce : Oracle.structural.deduce tparams params args g = (.ok s, g'))
    {spec : DeclHandle} (hspec : Oracle.structural.specialize template s g' = (.ok spec, g'')) :
    ∃ t params' defn, (g''.decl spec).form = .function t params' defn ∧
      params'.length = args.length ∧
      ∀ (i : Nat) (p q : DeclHandle) (a : ExprHandle) (declared : TypeHandle),
        params[i]? = some p → params'[i]? = some q → args[i]? = some a →
        g''.objectParamType? p = some declared → g''.TakesValueOf declared q a := by
  have hw := hg.wellFormed
  obtain ⟨hgrow', hfits⟩ := hw.yields_deduce tparams params ha
  rw [show Build.deduce tparams params args g = (.ok s, g') from hdeduce] at hgrow' hfits
  have hw' := hgrow'.wellFormed hw
  obtain ⟨hgrow'', hyields⟩ := Attempt.Yields.specialize hw' template (hfits s rfl)
  rw [show Build.specialize template s g' = (.ok spec, g'') from hspec] at hgrow'' hyields
  have hw'' := hgrow''.wellFormed hw'
  have hgrow := hgrow'.trans hgrow''
  obtain ⟨ps, r, t, params', defn, ret', hps, hform, -, hparams, -⟩ := hyields spec rfl
  rw [hgrow.extends.functionPattern? hpattern] at hps
  cases hps
  have hlen := (Build.deduce_ok hdeduce).1
  refine ⟨t, params', defn, hform, hparams.length_eq.symm.trans hlen,
    fun i p q a declared hi hq hi' hp => ?_⟩
  obtain ⟨t₀, u, ht₀, hu, hsub⟩ := List.forall₂_zip hparams
    (List.mem_iff_getElem?.2 ⟨i, List.getElem?_zip_eq_some.2 ⟨hi, hq⟩⟩)
  rw [hp] at ht₀
  cases ht₀
  have hmem := ha a (List.mem_of_getElem? hi')
  refine hw''.takesValueOf (hgrow.contains hmem) hu hsub ?_
  -- the equation was solved in the first graph, and its two sides are the same in the last one
  obtain ⟨t₁, ht₁⟩ := objectParam_of_matchArgs hlen (Build.deduce_ok hdeduce).2.choose_spec.1 p
    (List.mem_of_getElem? hi)
  have hsame : t₁ = declared := by
    rw [hgrow.extends.objectParamType? (contains_of_objectParamType? ht₁), ht₁] at hp
    exact Option.some.inj hp
  have hdeclared := hw.contains_objectParamType? (hsame ▸ ht₁)
  have h := hw.deduce_instantiates ha hdeduce hi hi'
  rw [paramTree, paramType, ht₁, Option.getD_some, hsame] at h
  rw [hw.valueType_extend hgrow.extends hdeclared,
    hw.typeTree_extend hgrow.extends (hw.contains_valueType hdeclared),
    (hfits s rfl).tree?_extend hw' hgrow''.extends, h, argTree, argTree,
    hw.argType_extend hgrow.extends hmem,
    hw.typeTree_extend hgrow.extends (hw.contains_argType hmem)]

/-- The graph of a template `template<typename T> void f(T x)`, its declaration 4, and of the name
of a variable of type `int&`, its expression 0. -/
def referenceCall : Graph :=
  let build : Build Unit := do
    let d ← Build.typeParam .globalName none
    if let .ok t ← (Build.typenameType d).run then
      let x ← Build.objectParam .globalName t
      if let .ok f ← (Build.functionDecl .globalName [x] .void).run then
        let _ ← Build.templateDecl [d] f none
        let int ← Build.intType
        let ref ← Build.referenceType int
        let r ← Build.variableDecl .globalName ref none
        let _ ← (Build.referenceTo r).run
  (build (.initial .empty 32)).2

theorem referenceCall_reachable : referenceCall.Reachable := by
  have hparam := (Reachable.initial .empty 32).operation (x := Build.typeParam .globalName none)
    (.typeParam rfl (by simp))
  have htypename := hparam.operation (.typenameType (d := ⟨1⟩) rfl)
  have hobject := htypename.operation (.objectParam (n := .globalName) (t := ⟨3⟩) rfl rfl)
  have hfunction := hobject.operation (x := (Build.functionDecl .globalName [⟨2⟩] .void).run)
    (.functionDecl rfl (by simp; rfl) rfl)
  have htemplate := hfunction.operation (x := Build.templateDecl [⟨1⟩] ⟨3⟩ none)
    (.templateDecl (by simp; rfl) rfl (by simp))
  have hint := htemplate.operation .intType
  have href := hint.operation (.referenceType (t := ⟨5⟩) rfl)
  have hvariable := href.operation (x := Build.variableDecl .globalName ⟨6⟩ none)
    (.variableDecl rfl rfl (by simp))
  exact hvariable.operation (.referenceTo (d := ⟨5⟩) rfl)

/-- What is deduced for a call of the template with this name: `T` is `int&`. -/
def referenceCallArgs : Substitution := ⟨[⟨1⟩], [(⟨1⟩, .type ⟨6⟩)]⟩

/-- The graph after the deduction. -/
def deducedReferenceCall : Graph :=
  (Oracle.structural.deduce [⟨1⟩] [⟨2⟩] [⟨0⟩] referenceCall).2

theorem deduce_referenceCall :
    Oracle.structural.deduce [⟨1⟩] [⟨2⟩] [⟨0⟩] referenceCall =
      (.ok referenceCallArgs, deducedReferenceCall) :=
  Prod.ext (by decide +kernel) rfl

/-- The graph with the specialization, its declaration 7, and the parameter of this, 6. -/
def specializedReferenceCall : Graph :=
  (Oracle.structural.specialize ⟨4⟩ referenceCallArgs deducedReferenceCall).2

theorem specialize_referenceCall :
    Oracle.structural.specialize ⟨4⟩ referenceCallArgs deducedReferenceCall =
      (.ok ⟨7⟩, specializedReferenceCall) :=
  Prod.ext (by decide +kernel) rfl

theorem functionPattern?_referenceCall :
    referenceCall.functionPattern? ⟨4⟩ = some ([⟨2⟩], .void) := by
  decide +kernel

/-- The parameter of the specialization, the declaration 6, has become the reference that the
argument's value type is. -/
theorem specialized_paramType_referenceCall :
    referenceCall.Reachable ∧
    referenceCall.functionPattern? ⟨4⟩ = some ([⟨2⟩], .void) ∧
    (∀ a ∈ [(⟨0⟩ : ExprHandle)], referenceCall.contains a = true) ∧
    Oracle.structural.deduce [⟨1⟩] [⟨2⟩] [⟨0⟩] referenceCall =
      (.ok referenceCallArgs, deducedReferenceCall) ∧
    Oracle.structural.specialize ⟨4⟩ referenceCallArgs deducedReferenceCall =
      (.ok ⟨7⟩, specializedReferenceCall) ∧
    (specializedReferenceCall.decl ⟨7⟩).form = .function ⟨8⟩ [⟨6⟩] none ∧
    specializedReferenceCall.objectParamType? ⟨2⟩ = some ⟨3⟩ ∧
    specializedReferenceCall.isReference ⟨3⟩ = false ∧
    specializedReferenceCall.isReference (specializedReferenceCall.argType ⟨0⟩) = true ∧
    specializedReferenceCall.objectParamType? ⟨6⟩ =
      some (specializedReferenceCall.argType ⟨0⟩) := by
  have ha : ∀ a ∈ [(⟨0⟩ : ExprHandle)], referenceCall.contains a = true := by
    rintro a (_ | ⟨_, ⟨⟩⟩)
    rfl
  have hform : (specializedReferenceCall.decl ⟨7⟩).form = .function ⟨8⟩ [⟨6⟩] none := by
    decide +kernel
  have hdeclared : specializedReferenceCall.objectParamType? ⟨2⟩ = some ⟨3⟩ := by decide +kernel
  have hplain : specializedReferenceCall.isReference ⟨3⟩ = false := by decide +kernel
  have harg :
      specializedReferenceCall.isReference (specializedReferenceCall.argType ⟨0⟩) = true := by
    decide +kernel
  obtain ⟨t, params', defn, hform', -, htakes⟩ :=
    specialized_paramType referenceCall_reachable functionPattern?_referenceCall ha
      deduce_referenceCall specialize_referenceCall
  cases hform.symm.trans hform'
  exact ⟨referenceCall_reachable, functionPattern?_referenceCall, ha, deduce_referenceCall,
    specialize_referenceCall, hform, hdeclared, hplain, harg,
    (htakes 0 ⟨2⟩ ⟨6⟩ ⟨0⟩ ⟨3⟩ rfl rfl rfl hdeclared).reference hplain harg⟩

/-- Here the parameter takes values of type `int`, and the argument's value type is `int&`. -/
theorem paramType_ne_argType_of_referenceCall :
    referenceCall.Reachable ∧
    referenceCall.functionPattern? ⟨4⟩ = some ([⟨2⟩], .void) ∧
    referenceCall.contains (⟨0⟩ : ExprHandle) = true ∧
    Oracle.structural.deduce [⟨1⟩] [⟨2⟩] [⟨0⟩] referenceCall =
      (.ok referenceCallArgs, deducedReferenceCall) ∧
    Oracle.structural.specialize ⟨4⟩ referenceCallArgs deducedReferenceCall =
      (.ok ⟨7⟩, specializedReferenceCall) ∧
    (specializedReferenceCall.decl ⟨7⟩).form = .function ⟨8⟩ [⟨6⟩] none ∧
    specializedReferenceCall.paramType ⟨6⟩ ≠ specializedReferenceCall.argType ⟨0⟩ :=
  ⟨referenceCall_reachable, functionPattern?_referenceCall, rfl, deduce_referenceCall,
    specialize_referenceCall, by decide +kernel, by decide +kernel⟩

end Graph
end SemanticCore
