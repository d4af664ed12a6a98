import SemanticCore.Proofs.Template.Matching
import SemanticCore.Proofs.Template.Substitution

/-!
# Deducing template arguments

Deduction first solves the equations between the value types of the parameters and of the arguments
and then gives the parameters that they leave open their defaults.  `Graph.IsSolution` is the first
condition as a caller sees it, and `Graph.WellFormed.deduce_iff` says that deduction succeeds
exactly if there is a solution and every parameter that occurs nowhere has a default.  What is
deduced is then *the* solution (`Graph.WellFormed.deduce_solution`), so it does not depend on the
order of the arguments (`Graph.WellFormed.deduce_perm`).
-/

set_option autoImplicit false
namespace SemanticCore

open SemanticCore.Graph

variable {g g' : Graph}

namespace Graph

/-! ## The equations of a call -/

/-- The type that a function parameter is matched by. -/
def paramType (g : Graph) (param : DeclHandle) : TypeHandle :=
  g.valueType ((g.objectParamType? param).getD .void)

/-- The type that an argument is matched by. -/
def argType (g : Graph) (arg : ExprHandle) : TypeHandle :=
  g.valueType (g.exprType arg)

/-- The tree that a function parameter is matched by. -/
def paramTree (g : Graph) (param : DeclHandle) : TypeTree :=
  g.typeTree (g.paramType param)

/-- The tree that an argument is matched by. -/
def argTree (g : Graph) (arg : ExprHandle) : TypeTree :=
  g.typeTree (g.argType arg)

/-- Replacing the template parameters by the types that are assigned to them makes the tree of every
parameter that of its argument. -/
def IsSolution (g : Graph) (tparams params : List DeclHandle) (args : List ExprHandle)
    (θ : DeclHandle → TypeHandle) : Prop :=
  (∀ d ∈ tparams, g.contains (θ d) = true) ∧
    ∀ (i : Nat) (param : DeclHandle) (arg : ExprHandle), params[i]? = some param →
      args[i]? = some arg →
        (g.paramTree param).replace tparams (fun d => g.typeTree (θ d)) = g.argTree arg

/-- The equations of a call. -/
def callEquations (g : Graph) (params : List DeclHandle) (args : List ExprHandle) :
    List (TypeHandle × TypeHandle) :=
  (params.zip args).map fun e => (g.paramType e.1, g.argType e.2)

theorem WellFormed.contains_paramType (hg : g.WellFormed) (param : DeclHandle) :
    g.contains (g.paramType param) = true := by
  refine hg.contains_valueType ?_
  cases h : g.objectParamType? param with
  | none => exact hg.contains_void
  | some t => exact hg.contains_objectParamType? h

theorem WellFormed.contains_argType (hg : g.WellFormed) {arg : ExprHandle}
    (ha : g.contains arg = true) : g.contains (g.argType arg) = true :=
  hg.contains_valueType (hg.contains_exprType ha)

theorem isSolution_iff {tparams params : List DeclHandle} {args : List ExprHandle}
    {θ : DeclHandle → TypeHandle} : g.IsSolution tparams params args θ ↔
      (∀ d ∈ tparams, g.contains (θ d) = true) ∧
        g.Solves tparams θ (g.callEquations params args) := by
  refine and_congr_right fun _ => ?_
  simp only [Solves, callEquations, List.forall_mem_map]
  constructor
  · intro h e he
    obtain ⟨i, hi⟩ := List.mem_iff_getElem?.1 he
    obtain ⟨hp, ha⟩ := List.getElem?_zip_eq_some.1 hi
    exact h i e.1 e.2 hp ha
  · intro h i param arg hp ha
    exact h (param, arg) (List.mem_iff_getElem?.2 ⟨i, List.getElem?_zip_eq_some.2 ⟨hp, ha⟩⟩)

theorem occurs_callEquations {params : List DeclHandle} {args : List ExprHandle}
    (hlen : params.length = args.length) (d : DeclHandle) :
    g.Occurs (g.callEquations params args) d ↔ ∃ p ∈ params, (g.paramTree p).Mentions d := by
  rw [exists_mem_iff_zip hlen]
  simp only [Occurs, callEquations, List.mem_map, exists_exists_and_eq_and]
  rfl

/-- What matching does for one parameter and its argument. -/
def matchArg (g : Graph) (s : Substitution) (e : DeclHandle × ExprHandle) :
    Except DeductionError Substitution :=
  match g.objectParamType? e.1 with
  | some t => g.matchType (g.valueType t) (g.argType e.2) s
  | none => .error (.notAnObjectParameter e.1)

theorem matchArgs_eq (params : List DeclHandle) (args : List ExprHandle) (s : Substitution) :
    g.matchArgs params args s = (params.zip args).foldlM g.matchArg s := rfl

theorem matchArg_some {param : DeclHandle} {t : TypeHandle} (h : g.objectParamType? param = some t)
    (s : Substitution) (arg : ExprHandle) :
    g.matchArg s (param, arg) = g.matchType (g.paramType param) (g.argType arg) s := by
  rw [matchArg, paramType, h]
  rfl

theorem matchArg_none {param : DeclHandle} (h : g.objectParamType? param = none)
    (s : Substitution) (arg : ExprHandle) :
    g.matchArg s (param, arg) = .error (.notAnObjectParameter param) := by
  rw [matchArg, h]

/-- **Matching the arguments of a call solves its equations.** -/
theorem WellFormed.matches_matchArgs (hg : g.WellFormed) (tparams : List DeclHandle)
    {params : List DeclHandle} {args : List ExprHandle}
    (hp : ∀ p ∈ params, ∃ t, g.objectParamType? p = some t)
    (ha : ∀ a ∈ args, g.contains a = true) :
    g.Matches tparams (g.matchArgs params args) (g.callEquations params args) := by
  refine .foldlM _ fun e he => ?_
  obtain ⟨hmem, hmem'⟩ := List.of_mem_zip he
  obtain ⟨t, ht⟩ := hp e.1 hmem
  have hm := hg.matches_matchType tparams (hg.contains_paramType e.1)
    (hg.contains_argType (ha e.2 hmem'))
  exact hm.congr fun s _ => matchArg_some ht s e.2

/-- Matching goes through object parameters only. -/
theorem objectParam_of_matchArgs {params : List DeclHandle} {args : List ExprHandle}
    (hlen : params.length = args.length) {s s' : Substitution}
    (h : g.matchArgs params args s = .ok s') :
    ∀ p ∈ params, ∃ t, g.objectParamType? p = some t := by
  rw [matchArgs_eq] at h
  induction params generalizing args s with
  | nil => simp
  | cons p params ih =>
    cases args with
    | nil => cases hlen
    | cons a args =>
      rw [List.zip_cons_cons, List.foldlM_cons] at h
      cases ht : g.objectParamType? p with
      | none => rw [matchArg_none ht] at h; cases h
      | some t =>
        cases hm : g.matchArg s (p, a) with
        | error e => rw [hm] at h; cases h
        | ok s₁ =>
          rw [hm] at h
          intro q hq
          rcases List.mem_cons.1 hq with rfl | hq
          · exact ⟨t, ht⟩
          · exact ih (Nat.succ.inj hlen) h q hq

end Graph

/-! ## Defaults -/

theorem Substitution.Le.isBound {s s' : Substitution} (h : s.Le s') {d : DeclHandle}
    (hd : s.isBound d = true) : s'.isBound d = true := by
  obtain ⟨a, ha⟩ := Option.isSome_iff_exists.1 hd
  exact Option.isSome_iff_exists.2 ⟨a, h.get? d a ha⟩

theorem Graph.Extends.typeDefault? (h : g.Extends g') {d : DeclHandle} (hd : g.contains d = true) :
    g'.typeDefault? d = g.typeDefault? d := by
  have hc := (h.decl hd).form
  unfold Graph.typeDefault?
  generalize (g.decl d).form = f, (g'.decl d).form = f' at hc ⊢
  cases hc <;> rfl

theorem Graph.WellFormed.contains_typeDefault? (hg : g.WellFormed) {d : DeclHandle} {t : TypeHandle}
    (h : g.typeDefault? d = some t) : g.contains t = true := by
  have hd : g.contains d = true := contains_of_form_ne fun hf => by
    simp [Graph.typeDefault?, hf] at h
  have hfit := (hg.placed d hd).2.2
  rw [Graph.typeDefault?] at h
  split at h
  · next default hf =>
    rw [hf] at hfit
    exact hfit t h
  · cases h

namespace Build

variable {s s' : Substitution} {d : DeclHandle} {t : TypeHandle}

theorem fillDefault_bound (h : s.isBound d = true) : fillDefault s d g = (.ok s, g) := by
  rw [fillDefault, if_pos h]
  rfl

theorem fillDefault_none (h : s.isBound d = false) (hd : g.typeDefault? d = none) :
    fillDefault s d g = (.error (.undeduced d), g) := by
  rw [fillDefault, if_neg (ne_true_of_eq_false h), Attempt.get_bind, hd]
  rfl

theorem fillDefault_some (h : s.isBound d = false) (hd : g.typeDefault? d = some t) :
    fillDefault s d g = (.ok { s with bindings := (d, .type (substitute s t g).1) :: s.bindings },
      (substitute s t g).2) := by
  have hbind : s.bindType d (substitute s t g).1 =
      .ok { s with bindings := (d, .type (substitute s t g).1) :: s.bindings } := by
    have hnone : s.get? d = none := Option.not_isSome_iff_eq_none.1 (ne_true_of_eq_false h)
    rw [Substitution.bindType_eq_ok, Substitution.bind, hnone]
  rw [fillDefault, if_neg (ne_true_of_eq_false h), Attempt.get_bind, hd]
  change ((liftM (s.bindType d (substitute s t g).1) : Attempt DeductionError Substitution)
    (substitute s t g).2) = _
  rw [hbind]
  rfl

end Build

/-- Giving a parameter its default keeps what is bound, and binds the parameter. -/
theorem Attempt.Yields.fillDefault (hg : g.WellFormed) {s : Substitution} (hs : s.Fits g)
    (d : DeclHandle) : Attempt.Yields g (Build.fillDefault s d) fun s' g' =>
      s'.Fits g' ∧ s.Le s' ∧ s'.isBound d = true := by
  cases hb : s.isBound d with
  | true =>
    rw [Attempt.Yields, Build.Yields, Build.fillDefault_bound hb]
    exact ⟨.refl g, by rintro _ ⟨⟩; exact ⟨hs, .refl s, hb⟩⟩
  | false =>
    cases hd : g.typeDefault? d with
    | none =>
      rw [Attempt.Yields, Build.Yields, Build.fillDefault_none hb hd]
      exact ⟨.refl g, by rintro _ ⟨⟩⟩
    | some t =>
      obtain ⟨hgrow, hc⟩ := Build.Makes.substitute hg hs (hg.contains_typeDefault? hd)
      rw [Attempt.Yields, Build.Yields, Build.fillDefault_some hb hd]
      refine ⟨hgrow, ?_⟩
      rintro _ ⟨⟩
      refine ⟨fun x a hx => ?_, ⟨rfl, fun x a hx => ?_⟩, ?_⟩
      · rw [Substitution.get?_cons] at hx
        split at hx
        · cases hx; exact hc
        · exact (hs x a hx).extend hgrow.extends
      · rw [Substitution.get?_cons]
        split
        · next heq =>
          rw [heq] at hx
          rw [Substitution.isBound, hx] at hb
          cases hb
        · exact hx
      · rw [Substitution.isBound, Substitution.get?_cons, if_pos rfl]
        rfl

theorem Attempt.Yields.fillDefaults (ds : List DeclHandle) {g : Graph} (hg : g.WellFormed)
    {s : Substitution} (hs : s.Fits g) :
    Attempt.Yields g (ds.foldlM Build.fillDefault s) fun s' g' =>
      s'.Fits g' ∧ s.Le s' ∧ ∀ d ∈ ds, s'.isBound d = true := by
  induction ds generalizing g s with
  | nil =>
    rw [List.foldlM_nil]
    exact .pure ⟨hs, .refl s, by simp⟩
  | cons d ds ih =>
    rw [List.foldlM_cons]
    refine .bind hg (.fillDefault hg hs d) fun s₁ g₁ _ hg₁ ⟨hs₁, hle₁, hd⟩ => ?_
    refine (ih hg₁ hs₁).mono fun s₂ g₂ ⟨hs₂, hle₂, hds⟩ => ⟨hs₂, hle₁.trans hle₂, fun x hx => ?_⟩
    rcases List.mem_cons.1 hx with rfl | hx
    · exact hle₂.isBound hd
    · exact hds x hx

/-- **The defaults fill what is open exactly if every open parameter has one.** -/
theorem Graph.WellFormed.fillDefaults_iff (ds : List DeclHandle) {g : Graph} (hg : g.WellFormed)
    {s : Substitution} (hs : s.Fits g) (hds : ∀ d ∈ ds, g.contains d = true) :
    (∃ s' g', ds.foldlM Build.fillDefault s g = (.ok s', g')) ↔
      ∀ d ∈ ds, s.isBound d = true ∨ ∃ t, g.typeDefault? d = some t := by
  induction ds generalizing g s with
  | nil => simpa using ⟨s, g, rfl⟩
  | cons d ds ih =>
    have hds' : ∀ x ∈ ds, g.contains x = true := fun x hx => hds x (List.mem_cons_of_mem _ hx)
    rw [List.foldlM_cons, List.forall_mem_cons]
    cases hb : s.isBound d with
    | true =>
      rw [Attempt.bind_of_ok (Build.fillDefault_bound hb), ih hg hs hds']
      exact (and_iff_right (.inl rfl)).symm
    | false =>
      cases hd : g.typeDefault? d with
      | none =>
        rw [Attempt.bind_of_error (Build.fillDefault_none hb hd)]
        exact iff_of_false (by rintro ⟨_, _, h⟩; cases h) (by simp)
      | some t =>
        have hrun := Build.fillDefault_some hb hd
        have hyield := Attempt.Yields.fillDefault hg hs d
        rw [Attempt.Yields, Build.Yields, hrun] at hyield
        obtain ⟨hgrow, hres⟩ := hyield
        rw [Attempt.bind_of_ok hrun, ih (hgrow.wellFormed hg) (hres _ rfl).1
          fun x hx => hgrow.contains (hds' x hx)]
        simp only [Option.some.injEq, exists_eq', or_true, true_and]
        refine forall₂_congr fun x hx => ?_
        rw [hgrow.extends.typeDefault? (hds' x hx), Substitution.isBound, Substitution.get?_cons]
        split
        · next heq => simp [heq, hd]
        · rfl

/-! ## Deduction -/

namespace Build

theorem deduce_eq (tparams params : List DeclHandle) (args : List ExprHandle)
    (hlen : params.length = args.length) : deduce tparams params args g =
      (match g.matchArgs params args (.ofParams tparams) with
        | .ok s => tparams.foldlM fillDefault s
        | .error e => throw e : Attempt DeductionError Substitution) g := by
  rw [deduce, if_neg (not_not_intro hlen)]
  change ((liftM (g.matchArgs params args (.ofParams tparams)) >>= fun s =>
    tparams.foldlM fillDefault s) : Attempt DeductionError Substitution) g = _
  cases g.matchArgs params args (.ofParams tparams) <;> rfl

theorem deduce_of_length_ne (tparams params : List DeclHandle) (args : List ExprHandle)
    (hlen : params.length ≠ args.length) : deduce tparams params args g =
      (.error (.argumentCount params.length args.length), g) := by
  rw [deduce, if_pos hlen]
  rfl

/-- A deduction that succeeds has matched the arguments and filled the rest. -/
theorem deduce_ok {tparams params : List DeclHandle} {args : List ExprHandle} {s : Substitution}
    (h : deduce tparams params args g = (.ok s, g')) :
    params.length = args.length ∧ ∃ s₁, g.matchArgs params args (.ofParams tparams) = .ok s₁ ∧
      tparams.foldlM fillDefault s₁ g = (.ok s, g') := by
  by_cases hlen : params.length = args.length
  · rw [deduce_eq _ _ _ hlen] at h
    cases hm : g.matchArgs params args (.ofParams tparams) with
    | ok s₁ => rw [hm] at h; exact ⟨hlen, s₁, rfl, h⟩
    | error e => rw [hm] at h; cases h
  · rw [deduce_of_length_ne _ _ _ hlen] at h
    cases h

end Build

theorem Substitution.Typed.fits {s : Substitution} (hs : s.Typed g) : s.Fits g := by
  intro d a hd
  obtain ⟨-, t, rfl, ht⟩ := hs d a hd
  exact ht

/-- Some assignment says what the substitution says. -/
theorem Substitution.Typed.exists_agrees (hg : g.WellFormed) {s : Substitution} (hs : s.Typed g) :
    ∃ θ, (∀ d, g.contains (θ d) = true) ∧ s.Agrees θ := by
  refine ⟨fun d => (s.type? d).getD .void, fun d => ?_, fun d a hd => ?_⟩
  · change g.contains ((s.type? d).getD .void) = true
    cases h : s.type? d with
    | none => exact hg.contains_void
    | some t => exact hs.fits.type? h
  · obtain ⟨-, t, rfl, -⟩ := hs d a hd
    simp only [Substitution.type?, hd, Option.getD_some]

namespace Graph

variable {tparams params : List DeclHandle} {args : List ExprHandle}

theorem typed_ofParams (g : Graph) (tparams : List DeclHandle) :
    (Substitution.ofParams tparams).Typed g :=
  fun _ _ h => by cases h

theorem agrees_ofParams (tparams : List DeclHandle) (θ : DeclHandle → TypeHandle) :
    (Substitution.ofParams tparams).Agrees θ :=
  fun _ _ h => by cases h

/-- Matching the arguments binds the parameters that occur. -/
theorem WellFormed.isBound_matchArgs (hg : g.WellFormed) (hlen : params.length = args.length)
    (hp : ∀ p ∈ params, ∃ t, g.objectParamType? p = some t)
    (ha : ∀ a ∈ args, g.contains a = true) {s : Substitution}
    (hm : g.matchArgs params args (.ofParams tparams) = .ok s) (d : DeclHandle) :
    s.isBound d = true ↔ d ∈ tparams ∧ ∃ p ∈ params, (g.paramTree p).Mentions d := by
  rw [(hg.matches_matchArgs tparams hp ha).bound rfl hm, occurs_callEquations hlen]
  exact or_iff_right_of_imp fun h => by cases h

/-- What matching the arguments binds is a solution of the call. -/
theorem WellFormed.exists_solution_of_matchArgs (hg : g.WellFormed)
    (hlen : params.length = args.length) (ha : ∀ a ∈ args, g.contains a = true) {s : Substitution}
    (hm : g.matchArgs params args (.ofParams tparams) = .ok s) :
    ∃ θ, g.IsSolution tparams params args θ ∧ (∀ d, g.contains (θ d) = true) ∧ s.Agrees θ := by
  have hmatch := hg.matches_matchArgs tparams (objectParam_of_matchArgs hlen hm) ha
  have htyped := hmatch.typed rfl (typed_ofParams g tparams) hm
  obtain ⟨θ, hθ, hagree⟩ := htyped.exists_agrees hg
  exact ⟨θ, isSolution_iff.2 ⟨fun d _ => hθ d, hmatch.sound rfl hm hagree⟩, hθ, hagree⟩

/-- Deducing only adds to the graph, and what it deduces is in the graph. -/
theorem WellFormed.yields_deduce (hg : g.WellFormed) (tparams params : List DeclHandle)
    (ha : ∀ a ∈ args, g.contains a = true) :
    Attempt.Yields g (Build.deduce tparams params args) fun s g' => s.Fits g' := by
  rw [Attempt.Yields, Build.Yields]
  by_cases hlen : params.length = args.length
  · rw [Build.deduce_eq _ _ _ hlen]
    cases hm : g.matchArgs params args (.ofParams tparams) with
    | error e => exact ⟨.refl g, by rintro _ ⟨⟩⟩
    | ok s =>
      have hp := objectParam_of_matchArgs hlen hm
      have htyped := (hg.matches_matchArgs tparams hp ha).typed rfl (typed_ofParams g tparams) hm
      exact (Attempt.Yields.fillDefaults tparams hg htyped.fits).mono fun _ _ h => h.1
  · rw [Build.deduce_of_length_ne _ _ _ hlen]
    exact ⟨.refl g, by rintro _ ⟨⟩⟩

/-- **Deduction succeeds exactly if the equations of the call have a solution and every template
parameter that they leave open has a default.** -/
theorem WellFormed.deduce_iff (hg : g.WellFormed) (htp : ∀ d ∈ tparams, g.contains d = true)
    (ha : ∀ a ∈ args, g.contains a = true) :
    (∃ s g', Build.deduce tparams params args g = (.ok s, g')) ↔
      params.length = args.length ∧ (∀ p ∈ params, ∃ t, g.objectParamType? p = some t) ∧
        (∃ θ, g.IsSolution tparams params args θ) ∧
          ∀ d ∈ tparams, (∀ p ∈ params, ¬ (g.paramTree p).Mentions d) →
            ∃ t, g.typeDefault? d = some t := by
  constructor
  · rintro ⟨s, g', h⟩
    obtain ⟨hlen, s₁, hm, hfill⟩ := Build.deduce_ok h
    have hp := objectParam_of_matchArgs hlen hm
    have htyped := (hg.matches_matchArgs tparams hp ha).typed rfl (typed_ofParams g tparams) hm
    obtain ⟨θ, hsol, -, -⟩ := hg.exists_solution_of_matchArgs hlen ha hm
    refine ⟨hlen, hp, ⟨θ, hsol⟩, ?_⟩
    intro d hd hno
    refine ((hg.fillDefaults_iff tparams htyped.fits htp).1 ⟨s, g', hfill⟩ d hd).resolve_left ?_
    rw [hg.isBound_matchArgs hlen hp ha hm]
    rintro ⟨-, p, hmem, hmentions⟩
    exact hno p hmem hmentions
  · rintro ⟨hlen, hp, ⟨θ, hsol⟩, hdefault⟩
    have hmatch := hg.matches_matchArgs tparams hp ha
    obtain ⟨hθ, hsolves⟩ := isSolution_iff.1 hsol
    obtain ⟨s₁, hm, -⟩ := hmatch.complete rfl hθ (agrees_ofParams tparams θ) hsolves
    have htyped := hmatch.typed rfl (typed_ofParams g tparams) hm
    rw [Build.deduce_eq _ _ _ hlen, hm]
    refine (hg.fillDefaults_iff tparams htyped.fits htp).2 fun d hd => ?_
    rw [hg.isBound_matchArgs hlen hp ha hm]
    by_cases hocc : ∃ p ∈ params, (g.paramTree p).Mentions d
    · exact .inl ⟨hd, hocc⟩
    · exact .inr (hdefault d hd fun p hmem hmentions => hocc ⟨p, hmem, hmentions⟩)

/-- **What is deduced binds every template parameter, and those that occur as every solution
does.** -/
theorem WellFormed.deduce_solution (hg : g.WellFormed) (ha : ∀ a ∈ args, g.contains a = true)
    {s : Substitution} (h : Build.deduce tparams params args g = (.ok s, g')) :
    (∀ d ∈ tparams, s.isBound d = true) ∧
      ∀ θ, g.IsSolution tparams params args θ → ∀ d ∈ tparams,
        (∃ p ∈ params, (g.paramTree p).Mentions d) → s.type? d = some (θ d) := by
  obtain ⟨hlen, s₁, hm, hfill⟩ := Build.deduce_ok h
  have hp := objectParam_of_matchArgs hlen hm
  have hmatch := hg.matches_matchArgs tparams hp ha
  have htyped := hmatch.typed rfl (typed_ofParams g tparams) hm
  have hyield := Attempt.Yields.fillDefaults tparams hg htyped.fits
  rw [Attempt.Yields, Build.Yields, hfill] at hyield
  obtain ⟨-, hle, hbound⟩ := hyield.2 s rfl
  refine ⟨hbound, fun θ hsol d hd hocc => ?_⟩
  obtain ⟨hθ, hsolves⟩ := isSolution_iff.1 hsol
  obtain ⟨s₂, hm₂, hagree⟩ := hmatch.complete rfl hθ (agrees_ofParams tparams θ) hsolves
  have hsame : s₁ = s₂ := Except.ok.inj (hm.symm.trans hm₂)
  have hb : s₁.isBound d = true := (hg.isBound_matchArgs hlen hp ha hm d).2 ⟨hd, hocc⟩
  obtain ⟨a, hget⟩ := Option.isSome_iff_exists.1 hb
  have hval := hagree d a (hsame ▸ hget)
  rw [hval] at hget
  rw [Substitution.type?, hle.get? d _ hget]

end Graph

/-! ## The order of the arguments -/

namespace Build

variable {s s' t : Substitution} {d : DeclHandle}

theorem fillDefault_congr (h : ∀ x, s'.get? x = s.get? x)
    (hrun : fillDefault s d g = (.ok t, g')) :
    ∃ t', fillDefault s' d g = (.ok t', g') ∧ ∀ x, t'.get? x = t.get? x := by
  have hb' : s'.isBound d = s.isBound d := congrArg Option.isSome (h d)
  cases hb : s.isBound d with
  | true =>
    rw [fillDefault_bound hb] at hrun
    cases hrun
    exact ⟨s', fillDefault_bound (hb'.trans hb), h⟩
  | false =>
    cases hd : g.typeDefault? d with
    | none => rw [fillDefault_none hb hd] at hrun; cases hrun
    | some u =>
      have hsub : substitute s' u = substitute s u :=
        substitute_congr (fun x => by rw [Substitution.type?, Substitution.type?, h]) u
      rw [fillDefault_some hb hd] at hrun
      cases hrun
      refine ⟨_, hsub ▸ fillDefault_some (hb'.trans hb) hd, fun x => ?_⟩
      rw [Substitution.get?_cons, Substitution.get?_cons, h]

theorem fillDefaults_congr (ds : List DeclHandle) {g g' : Graph} {s s' t : Substitution}
    (h : ∀ x, s'.get? x = s.get? x) (hrun : ds.foldlM fillDefault s g = (.ok t, g')) :
    ∃ t', ds.foldlM fillDefault s' g = (.ok t', g') ∧ ∀ x, t'.get? x = t.get? x := by
  induction ds generalizing g s s' with
  | nil =>
    cases hrun
    exact ⟨s', rfl, h⟩
  | cons d ds ih =>
    rw [List.foldlM_cons] at hrun ⊢
    cases hstep : fillDefault s d g with
    | mk r g₁ =>
      cases r with
      | error e => rw [Attempt.bind_of_error hstep] at hrun; cases hrun
      | ok s₁ =>
        rw [Attempt.bind_of_ok hstep] at hrun
        obtain ⟨s₁', hstep', h₁⟩ := fillDefault_congr h hstep
        rw [Attempt.bind_of_ok hstep']
        exact ih h₁ hrun

end Build

/-- Substitutions that agree with one assignment and bind the same parameters are the same. -/
theorem Substitution.get?_eq_of_agrees {s s' : Substitution} {θ : DeclHandle → TypeHandle}
    (hs : s.Agrees θ) (hs' : s'.Agrees θ)
    (hb : ∀ d, s'.isBound d = true ↔ s.isBound d = true) (d : DeclHandle) :
    s'.get? d = s.get? d := by
  cases h : s.get? d with
  | none =>
    refine Option.not_isSome_iff_eq_none.1 fun h' => ?_
    have hbound := (hb d).1 h'
    rw [Substitution.isBound, h] at hbound
    cases hbound
  | some a =>
    have hbound : s'.isBound d = true := (hb d).2 (by rw [Substitution.isBound, h]; rfl)
    obtain ⟨b, h'⟩ := Option.isSome_iff_exists.1 hbound
    rw [h', hs' d b h', hs d a h]

namespace Graph

variable {tparams : List DeclHandle}

/-- The equations are the same, only in another order. -/
theorem solves_of_perm {pairs pairs' : List (DeclHandle × ExprHandle)}
    (hperm : pairs.Perm pairs') {θ : DeclHandle → TypeHandle}
    (h : g.Solves tparams θ (g.callEquations (pairs.map Prod.fst) (pairs.map Prod.snd))) :
    g.Solves tparams θ (g.callEquations (pairs'.map Prod.fst) (pairs'.map Prod.snd)) := by
  have hzip : ∀ l : List (DeclHandle × ExprHandle),
      (l.map Prod.fst).zip (l.map Prod.snd) = l := fun l => (List.zip_of_prod rfl rfl).symm
  rw [callEquations, hzip] at h ⊢
  exact fun e he => h e ((hperm.map _).mem_iff.2 he)

/-- **What is deduced does not depend on the order of the parameters and their arguments.** -/
theorem WellFormed.deduce_perm (hg : g.WellFormed) {pairs pairs' : List (DeclHandle × ExprHandle)}
    (hperm : pairs.Perm pairs') (ha : ∀ e ∈ pairs, g.contains e.2 = true) {s : Substitution}
    (h : Build.deduce tparams (pairs.map Prod.fst) (pairs.map Prod.snd) g = (.ok s, g')) :
    ∃ s', Build.deduce tparams (pairs'.map Prod.fst) (pairs'.map Prod.snd) g = (.ok s', g') ∧
      ∀ d, s'.get? d = s.get? d := by
  obtain ⟨hlen, s₁, hm, hfill⟩ := Build.deduce_ok h
  have hp := objectParam_of_matchArgs hlen hm
  have hlen' : (pairs'.map Prod.fst).length = (pairs'.map Prod.snd).length := by simp
  have hp' : ∀ p ∈ pairs'.map Prod.fst, ∃ t, g.objectParamType? p = some t := fun p hmem' =>
    hp p ((hperm.map Prod.fst).mem_iff.2 hmem')
  have harg : ∀ a ∈ pairs.map Prod.snd, g.contains a = true := by simpa using fun a d => ha (d, a)
  have harg' : ∀ a ∈ pairs'.map Prod.snd, g.contains a = true := fun a hmem' =>
    harg a ((hperm.map Prod.snd).mem_iff.2 hmem')
  obtain ⟨θ, hsol, -, hagree⟩ := hg.exists_solution_of_matchArgs hlen harg hm
  obtain ⟨hθ, hsolves⟩ := isSolution_iff.1 hsol
  have hmatch' := hg.matches_matchArgs tparams hp' harg'
  obtain ⟨s₂, hm₂, hagree₂⟩ := hmatch'.complete rfl hθ (agrees_ofParams tparams θ)
    (solves_of_perm hperm hsolves)
  have hb : ∀ d, s₂.isBound d = true ↔ s₁.isBound d = true := fun d => by
    rw [hg.isBound_matchArgs hlen' hp' harg' hm₂, hg.isBound_matchArgs hlen hp harg hm]
    simp only [(hperm.map Prod.fst).mem_iff]
  rw [Build.deduce_eq _ _ _ hlen', hm₂]
  exact Build.fillDefaults_congr tparams (Substitution.get?_eq_of_agrees hagree hagree₂ hb) hfill

end Graph
end SemanticCore
