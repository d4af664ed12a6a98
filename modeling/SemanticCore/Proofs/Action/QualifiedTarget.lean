import SemanticCore.Proofs.Action.ReferenceVariable

/-!
# Qualifiers of the target of an initialization

An object of type `const T` should be initialized like one of type `T`, and nearly always it is.
The rules of initialization get there in different ways: references carry no qualifiers, the test
for a class looks through them, scalars are asked for once they are stripped, and a conversion is to
the unqualified type.  The two rules that refuse to initialize a sequence do nothing of the sort.
They ask for a type that is a sequence as it stands, so a qualified sequence falls through to the
rules for scalars.

`Graph.Requalifies` relates a target to one that differs from it in its qualifiers, in an extension
of the graph.  For each way of initializing there is a lemma that both targets are refused alike,
which compares the two chains of tests (`Build.refusal?_initZero` and its like) test by test.

* `InitRequest.refusal?_run` — apart from the rules for sequences, no rule sees the qualifiers.
* `Graph.Reachable.qualified_target_refusal_iff` — **adding qualifiers to the target changes the
  outcome exactly if the target is a sequence and would have been refused for that.**
-/

set_option autoImplicit false
namespace SemanticCore

open SemanticCore.Graph

/-! ## Targets that differ in their qualifiers -/

namespace Graph

variable {g g' : Graph} {t u : TypeHandle} {e : ExprHandle}

/-- The type `u` of the second graph, which extends the first, is the type `t` of the first up to
top-level qualifiers.  References carry none. -/
structure Requalifies (g : Graph) (t : TypeHandle) (g' : Graph) (u : TypeHandle) : Prop where
  ext : g.Extends g'
  contains : g.contains t = true
  contains' : g'.contains u = true
  same : g.isReference t = true → u = t
  unqualified : g'.unqualified u = g.unqualified t

/-- Qualifiers do not make a type dependent. -/
theorem WellFormed.isDependent_unqualified (hg : g.WellFormed) (ht : g.contains t = true) :
    g.isDependent (g.unqualified t) = g.isDependent t := by
  cases hq : (g.type t).isQualified with
  | false => rw [unqualified_of_plain hq]
  | true =>
    have hf := type_of_isQualified hq
    exact (hg.isDependent_component ht (by rw [hf]; rfl) (by rw [hf]; rfl)).symm

namespace Requalifies

/-- Nothing changes when the graph is extended. -/
theorem of_extends (h : g.Extends g') (ht : g.contains t = true) : g.Requalifies t g' t :=
  ⟨h, ht, h.contains ht, fun _ => rfl, h.unqualified ht⟩

/-- Adding qualifiers gives a type that differs in its qualifiers. -/
theorem of_qualifiedType (hg : g.WellFormed) (ht : g.contains t = true) (q : Qualifiers)
    (h : (Build.qualifiedType t q g).2.Extends g') :
    g.Requalifies t g' (Build.qualifiedType t q g).1 := by
  obtain ⟨hgrow, hc, hsame, hparts⟩ := Build.Yields.qualifiedType_parts hg q ht
  refine ⟨hgrow.extends.trans h, ht, h.contains hc, hsame, ?_⟩
  rw [h.unqualified hc]
  cases hr : g.isReference t with
  | true => rw [hsame hr, hgrow.extends.unqualified ht]
  | false => exact (hparts hr).1

variable (h : g.Requalifies t g' u) (hg : g.WellFormed) (hg' : g'.WellFormed)

include h hg

/-- The unqualified type is the same, and reads the same. -/
theorem type_unqualified : g'.type (g'.unqualified u) = g.type (g.unqualified t) := by
  rw [h.unqualified, h.ext.type (hg.contains_unqualified h.contains)]

theorem isClass : g'.isClass u = g.isClass t := by
  rw [Graph.isClass, Graph.isClass, h.type_unqualified hg]

include hg'

theorem isReference : g'.isReference u = g.isReference t := by
  rw [← hg'.isReference_unqualified h.contains', ← hg.isReference_unqualified h.contains,
    Graph.isReference, Graph.isReference, h.type_unqualified hg]

theorem isDependent : g'.isDependent u = g.isDependent t := by
  rw [← hg'.isDependent_unqualified h.contains', ← hg.isDependent_unqualified h.contains,
    h.unqualified, hg.isDependent_extend h.ext (hg.contains_unqualified h.contains)]

/-! ## No other rule asks for qualifiers -/

theorem refusal?_initZero : (Build.initZero u).refusal? g' = (Build.initZero t).refusal? g := by
  rw [Build.refusal?_initZero, Build.refusal?_initZero, h.isReference hg hg', h.isClass hg,
    h.type_unqualified hg]
  rfl

theorem refusal?_initDefault :
    (Build.initDefault u).refusal? g' = (Build.initDefault t).refusal? g := by
  rw [Build.refusal?_initDefault, Build.refusal?_initDefault, h.isReference hg hg']
  rfl

theorem refusal?_initValue : (Build.initValue u).refusal? g' = (Build.initValue t).refusal? g := by
  rw [Build.refusal?_initValue, Build.refusal?_initValue, h.isReference hg hg',
    h.refusal?_initZero hg hg']
  rfl

variable (he : g.contains e = true)

include he

theorem refusal?_initReference :
    (Build.initReference u e).refusal? g' = (Build.initReference t e).refusal? g := by
  have hs := hg.contains_exprType he
  rw [Build.refusal?_initReference, Build.refusal?_initReference, h.isReference hg hg']
  cases hr : g.isReference t with
  | false => rfl
  | true =>
    rw [h.same hr, h.ext.exprType he, h.ext.isReference hs, h.ext.nonReference h.contains,
      h.ext.nonReference hs, h.ext.referenceCompatible (hg.contains_nonReference h.contains)
        (hg.contains_nonReference hs)]

theorem refusal?_convert : (Build.convert e u).refusal? g' = (Build.convert e t).refusal? g := by
  rw [hg'.refusal?_convert (h.ext.contains he) h.contains', hg.refusal?_convert he h.contains,
    hg.typeByValue_extend h.ext he, h.unqualified,
    hg.conversionKind?_extend h.ext (hg.contains_typeByValue he)
      (hg.contains_unqualified h.contains)]

theorem refusal?_convertAndCopy :
    (Build.convertAndCopy u e).refusal? g' = (Build.convertAndCopy t e).refusal? g := by
  have hs := hg.contains_exprType he
  rw [Build.refusal?_convertAndCopy, Build.refusal?_convertAndCopy, h.ext.exprType he,
    h.ext.nonReference hs, hg.isDependent_extend h.ext (hg.contains_nonReference hs),
    hg.isClass_extend h.ext (hg.contains_nonReference hs), h.refusal?_convert hg hg' he]

theorem refusal?_initCopy
    (hseq : g.isDependent t = false → (g'.type u).isSequence = (g.type t).isSequence) :
    (Build.initCopy u e).refusal? g' = (Build.initCopy t e).refusal? g := by
  rw [Build.refusal?_initCopy, Build.refusal?_initCopy, h.isReference hg hg',
    h.isDependent hg hg', h.refusal?_initReference hg hg' he, h.isClass hg,
    h.refusal?_convertAndCopy hg hg' he]
  cases hd : g.isDependent t with
  | true => rfl
  | false => rw [hseq hd]

omit he in
theorem refusal?_initDirect {es : List ExprHandle} (hes : ∀ e ∈ es, g.contains e = true)
    (hseq : (g'.type u).isSequence = (g.type t).isSequence) :
    (Build.initDirect u es).refusal? g' = (Build.initDirect t es).refusal? g := by
  cases es with
  | nil =>
    rw [Build.refusal?_initDirect_nil, Build.refusal?_initDirect_nil, hseq,
      h.refusal?_initValue hg hg']
    rfl
  | cons e rest =>
    rw [Build.refusal?_initDirect_cons, Build.refusal?_initDirect_cons, hseq, h.isClass hg,
      h.refusal?_initCopy hg hg' (hes e List.mem_cons_self) fun _ => hseq]
    rfl

end Requalifies

end Graph

/-- **Apart from the rules for sequences, no rule sees the qualifiers of the target.** -/
theorem InitRequest.refusal?_run {g g' : Graph} {t u : TypeHandle} (h : g.Requalifies t g' u)
    (hg : g.WellFormed) (hg' : g'.WellFormed) (r : InitRequest)
    (hr : ∀ e ∈ r.exprs, g.contains e = true)
    (hseq : r.refusesSequence g t = true → (g'.type u).isSequence = (g.type t).isSequence) :
    (r.run u).refusal? g' = (r.run t).refusal? g := by
  have hcopy : ∀ e, g.contains e = true →
      ((!g.isDependent t) = true → (g'.type u).isSequence = (g.type t).isSequence) →
      (Build.initCopy u e).refusal? g' = (Build.initCopy t e).refusal? g :=
    fun e he hseq => h.refusal?_initCopy hg hg' he fun hd => hseq (hd ▸ rfl)
  cases r with
  | zero => exact h.refusal?_initZero hg hg'
  | default => exact h.refusal?_initDefault hg hg'
  | value => exact h.refusal?_initValue hg hg'
  | copy e => exact hcopy e (hr e List.mem_cons_self) hseq
  | direct es => exact h.refusal?_initDirect hg hg' hr (hseq rfl)
  | reference e => exact h.refusal?_initReference hg hg' (hr e List.mem_cons_self)
  | written w =>
    cases w with
    | equal e => exact hcopy e (hr e List.mem_cons_self) hseq
    | paren es => exact h.refusal?_initDirect hg hg' hr (hseq rfl)
    | brace es => rfl

/-! ## Adding qualifiers to the target -/

theorem Qualifiers.isNone_union_right {a b : Qualifiers} (h : b.isNone = false) :
    (a.union b).isNone = false := by
  rcases a with ⟨_ | _, _ | _⟩ <;> rcases b with ⟨_ | _, _ | _⟩ <;> first | rfl | cases h

namespace Graph

variable {g g' : Graph} {t : TypeHandle}

/-- A type with qualifiers is never taken for a sequence. -/
theorem WellFormed.isSequence_qualifiedType (hg : g.WellFormed) (ht : g.contains t = true)
    {q : Qualifiers} (hq : q.isNone = false)
    (h : (Build.qualifiedType t q g).2.Extends g') :
    (g'.type (Build.qualifiedType t q g).1).isSequence = false := by
  obtain ⟨hgrow, hc, hsame, hparts⟩ := Build.Yields.qualifiedType_parts hg q ht
  rw [h.type hc]
  refine eq_false_of_ne_true fun hseq => ?_
  cases hr : g.isReference t with
  | true =>
    have href := isReference_of_isSequence hseq
    rw [hsame hr, hgrow.extends.isReference ht, hr] at href
    cases href
  | false =>
    obtain ⟨a, hf⟩ := type_of_isSequence hseq
    have hquals := (hparts hr).2
    rw [quals_of_plain (by rw [hf]; rfl)] at hquals
    have hunion := Qualifiers.isNone_union_right (a := g.quals t) hq
    rw [← hquals] at hunion
    cases hunion

/-- **When qualifiers of the target matter.**  Initializing an object of a type with qualifiers
added succeeds exactly if it does for the type itself, and otherwise fails with an error of the same
variant, whatever is asked for and whatever has become of the graph meanwhile; except that a
sequence to which a qualifier is added is not refused as a sequence any more. -/
theorem Reachable.qualified_target_refusal_iff (hg : g.Reachable) (ht : g.contains t = true)
    (q : Qualifiers) (r : InitRequest) (hr : ∀ e ∈ r.exprs, g.contains e = true)
    {g₁ g₂ : Graph} (h₁ : g.Evolves g₁) (h₂ : (Build.qualifiedType t q g).2.Evolves g₂) :
    (r.run (Build.qualifiedType t q g).1).refusal? g₂ = (r.run t).refusal? g₁ ↔
      ¬ (q.isNone = false ∧ (g.type t).isSequence = true ∧ r.refusesSequence g t = true) := by
  have hw := hg.wellFormed
  have hgrow₁ := h₁.grows hw
  have hgrowq := (Build.Yields.qualifiedType_parts hw q ht).1
  have hgrow₂ := h₂.grows (hgrowq.wellFormed hw)
  have hw₁ := hgrow₁.wellFormed hw
  have hw₂ := hgrow₂.wellFormed (hgrowq.wellFormed hw)
  have hreq₁ := Requalifies.of_extends hgrow₁.extends ht
  have hreq₂ := Requalifies.of_qualifiedType hw ht q hgrow₂.extends
  -- the run on the type itself is the same in both graphs
  rw [InitRequest.refusal?_run hreq₁ hw hw₁ r hr fun _ =>
    congrArg TypeForm.isSequence (hgrow₁.extends.type ht)]
  constructor
  · rintro h ⟨hq, hseq, hrefuse⟩
    have hu := InitRequest.refusedAsSequence_run hw₂ hreq₂.contains' r
      fun e he => hreq₂.ext.contains (hr e he)
    have htarget := InitRequest.refusedAsSequence_run hw ht r hr
    rw [hw.isSequence_qualifiedType ht hq hgrow₂.extends, Bool.and_false,
      Attempt.refusedAsSequence, h, ← Attempt.refusedAsSequence, htarget, hseq, hrefuse] at hu
    cases hu
  · intro h
    refine InitRequest.refusal?_run hreq₂ hw hw₂ r hr fun hrefuse => ?_
    cases hq : q.isNone with
    | true =>
      have hcovers : (g.quals t).covers q = true :=
        Qualifiers.covers_iff_union_eq.2 (Qualifiers.union_of_isNone hq)
      rw [(hw.qualifiedType_eq_self_iff q ht).2 (.inr hcovers), hreq₂.ext.type ht]
    | false =>
      rw [hw.isSequence_qualifiedType ht hq hgrow₂.extends]
      exact (eq_false_of_ne_true fun hseq => h ⟨hq, hseq, hrefuse⟩).symm

/-! ## A name of `int a[]` -/

/-- The graph of the name of a variable `int a[]`.  The type `int` is 3, and `int[]` is 4. -/
def sequenceName : Graph :=
  let g := (Build.intType (Graph.initial .empty 32)).2
  let g := (Build.sequenceType ⟨3⟩ g).2
  let g := (Build.variableDecl .globalName ⟨4⟩ none g).2
  ((Build.referenceTo ⟨1⟩).run g).2

/-- The graph with `const int[]`, its type 6. -/
def constSequence : Graph :=
  (Build.qualifiedType ⟨4⟩ .const sequenceName).2

theorem sequenceName_reachable : sequenceName.Reachable := by
  have hint := (Reachable.initial .empty 32).operation (x := Build.intType) .intType
  have hseq := hint.operation (x := Build.sequenceType ⟨3⟩) (.sequenceType rfl)
  have hvar := hseq.operation (x := Build.variableDecl .globalName ⟨4⟩ none)
    (.variableDecl rfl rfl (by rintro _ ⟨⟩))
  exact hvar.operation (x := (Build.referenceTo ⟨1⟩).run) (.referenceTo rfl)

/-- Value initialization does not tell `const int[]` from `int[]`, and copying the name does. -/
theorem qualified_target_refusal_iff_sequenceName :
    (sequenceName.Reachable ∧ sequenceName.contains (⟨4⟩ : TypeHandle) = true ∧
      sequenceName.contains (⟨0⟩ : ExprHandle) = true) ∧
    Build.qualifiedType ⟨4⟩ .const sequenceName = (⟨6⟩, constSequence) ∧
    (Build.initValue ⟨6⟩).refusal? constSequence = (Build.initValue ⟨4⟩).refusal? sequenceName ∧
    (Build.initCopy ⟨6⟩ ⟨0⟩).refusal? constSequence ≠
      (Build.initCopy ⟨4⟩ ⟨0⟩).refusal? sequenceName := by
  have hg := sequenceName_reachable
  have ht : sequenceName.contains (⟨4⟩ : TypeHandle) = true := by decide +kernel
  have he : sequenceName.contains (⟨0⟩ : ExprHandle) = true := by decide +kernel
  have hu : (Build.qualifiedType ⟨4⟩ .const sequenceName).1 = ⟨6⟩ := by decide +kernel
  have hvalue := hg.qualified_target_refusal_iff ht .const .value (by rintro _ ⟨⟩) .refl .refl
  have hcopy := hg.qualified_target_refusal_iff ht .const (.copy ⟨0⟩)
    (fun _ h => List.mem_singleton.1 h ▸ he) .refl .refl
  rw [hu] at hvalue hcopy
  exact ⟨⟨hg, ht, he⟩, Prod.ext hu rfl, hvalue.2 (by decide +kernel),
    fun h => hcopy.1 h (by decide +kernel)⟩

/-- A `const` sequence is taken for a scalar: where initializing `int[]` is not supported, or an
error, `const int[]` is initialized by a copy of an array, and is refused in another way. -/
theorem sequence_rules_of_constSequence :
    sequenceName.Reachable ∧ sequenceName.contains (⟨4⟩ : TypeHandle) = true ∧
    sequenceName.contains (⟨0⟩ : ExprHandle) = true ∧
    Build.qualifiedType ⟨4⟩ .const sequenceName = (⟨6⟩, constSequence) ∧
    (Build.initCopy ⟨4⟩ ⟨0⟩ sequenceName).1 = .error (.unsupported .stringInitialization) ∧
    (Build.initCopy ⟨6⟩ ⟨0⟩ constSequence).1 = .ok ⟨0⟩ ∧
    (Build.initDirect ⟨4⟩ [] sequenceName).1 =
      .error (.type (.invalidArrayInitialization ⟨4⟩)) ∧
    (Build.initDirect ⟨6⟩ [] constSequence).1 = .error (.type (.cannotZeroInitialize ⟨6⟩)) := by
  have hu : (Build.qualifiedType ⟨4⟩ .const sequenceName).1 = ⟨6⟩ := by decide +kernel
  exact ⟨sequenceName_reachable, by decide +kernel, by decide +kernel, Prod.ext hu rfl,
    by decide +kernel, by decide +kernel, by decide +kernel, by decide +kernel⟩

end Graph
end SemanticCore
