import SemanticCore.Proofs.Action.Qualification
import SemanticCore.Proofs.Type.Qualified

/-!
# What an expression is by value

Conversions, operators and initializers work on values: they ask for a type with no references
around it and no qualifiers on top.  `Build.valueOf` gets there in one step.  It takes off one
reference, with the qualifiers below it, and leaves an expression that is no reference alone.

One step is enough for a literal and for the name of an object.  It is not enough for the call of a
function that returns `const int`, whose type is qualified without being a reference, nor for the
name of a variable that is a reference itself, whose type is a reference to a reference.
`Graph.OneLayer` says for which types it is enough.  By value an expression of any other type is of
no use, since a type that is qualified or a reference takes part in no conversion.

* `Graph.WellFormed.convert_eq` — the three ways in which a conversion ends.
* `Graph.WellFormed.isOk_convert` — when a conversion succeeds.
* `Graph.Reachable.value_bare_iff` — **an expression has a bare type by value, and can be converted
  to that type, exactly if there is one layer to take off.**
-/

set_option autoImplicit false
namespace SemanticCore

open SemanticCore.Graph

namespace Graph

variable {g : Graph} {t : TypeHandle}

/-! ## Bare types -/

/-- The type is neither a reference nor qualified. -/
structure IsBare (g : Graph) (t : TypeHandle) : Prop where
  isReference : g.isReference t = false
  isQualified : (g.type t).isQualified = false

/-- The type without the references around it, however many there are.  What a reference refers to
comes before the reference, so the walk ends. -/
def withoutReferences (g : Graph) (t : TypeHandle) : TypeHandle :=
  match g.type t with
  | .reference a => if _ : a < t then g.withoutReferences a else a
  | _ => t
termination_by t.index
decreasing_by assumption

/-- What is left of the type without its references and the qualifiers below them. -/
def bareType (g : Graph) (t : TypeHandle) : TypeHandle :=
  g.unqualified (g.withoutReferences t)

/-- There is at most one reference around the type, and qualifiers only below a reference. -/
structure OneLayer (g : Graph) (t : TypeHandle) : Prop where
  plain : (g.type t).isQualified = false
  single : g.isReference (g.nonReference t) = false

/-- A reference is not qualified. -/
theorem isQualified_of_isReference (hr : g.isReference t = true) :
    (g.type t).isQualified = false := by
  rw [type_of_isReference hr]
  rfl

theorem withoutReferences_of_plain (hr : g.isReference t = false) : g.withoutReferences t = t := by
  rw [isReference] at hr
  rw [withoutReferences]
  cases hf : g.type t with
  | reference a => rw [hf] at hr; cases hr
  | _ => rfl

theorem WellFormed.withoutReferences_nonReference (hg : g.WellFormed)
    (ht : g.contains t = true) :
    g.withoutReferences (g.nonReference t) = g.withoutReferences t := by
  cases hr : g.isReference t with
  | false => rw [nonReference_of_plain hr]
  | true =>
    have hf := type_of_isReference hr
    have hlt : g.nonReference t < t :=
      hg.component_lt ht (by rw [hf]; exact List.mem_cons_self)
    conv_rhs => rw [withoutReferences, hf]
    dsimp only
    rw [dif_pos hlt]

/-- All references are taken off. -/
theorem WellFormed.withoutReferences_plain (hg : g.WellFormed) (ht : g.contains t = true) :
    g.contains (g.withoutReferences t) = true ∧ g.isReference (g.withoutReferences t) = false := by
  obtain ⟨i⟩ := t
  induction i using Nat.strongRecOn with
  | ind i ih =>
    cases hr : g.isReference ⟨i⟩ with
    | false => rw [withoutReferences_of_plain hr]; exact ⟨ht, hr⟩
    | true =>
      rw [← hg.withoutReferences_nonReference ht]
      have hf := type_of_isReference hr
      have hlt := hg.component_lt ht (by rw [hf]; exact List.mem_cons_self)
      exact ih _ hlt (hg.contains_nonReference ht)

theorem bareType_of_plain (hr : g.isReference t = false) : g.bareType t = g.unqualified t := by
  rw [bareType, withoutReferences_of_plain hr]

theorem WellFormed.bareType_nonReference (hg : g.WellFormed) (ht : g.contains t = true) :
    g.bareType (g.nonReference t) = g.bareType t := by
  rw [bareType, bareType, hg.withoutReferences_nonReference ht]

theorem WellFormed.isBare_unqualified (hg : g.WellFormed) (ht : g.contains t = true)
    (hr : g.isReference t = false) : g.IsBare (g.unqualified t) :=
  ⟨(hg.isReference_unqualified ht).trans hr, hg.isQualified_unqualified ht⟩

theorem WellFormed.isBare_bareType (hg : g.WellFormed) (ht : g.contains t = true) :
    g.IsBare (g.bareType t) :=
  have ⟨hc, hr⟩ := hg.withoutReferences_plain ht
  hg.isBare_unqualified hc hr

/-! ## The type of a value -/

theorem WellFormed.typeByValue_extend {g' : Graph} (hg : g.WellFormed) (h : g.Extends g')
    {e : ExprHandle} (he : g.contains e = true) : g'.typeByValue e = g.typeByValue e := by
  have ht := hg.contains_exprType he
  rw [typeByValue, typeByValue, h.exprType he, h.isReference ht, hg.valueType_extend h ht]

/-- If there is one layer around the type of an expression, then by value it has the bare type. -/
theorem WellFormed.typeByValue_of_oneLayer (hg : g.WellFormed) {e : ExprHandle}
    (he : g.contains e = true) (h : g.OneLayer (g.exprType e)) :
    g.typeByValue e = g.bareType (g.exprType e) := by
  rw [← hg.bareType_nonReference (hg.contains_exprType he), bareType_of_plain h.single,
    typeByValue, valueType]
  cases hr : g.isReference (g.exprType e) with
  | true => exact if_pos rfl
  | false =>
    rw [nonReference_of_plain hr, unqualified_of_plain h.plain]
    exact if_neg Bool.false_ne_true

/-- With more than one layer around its type, an expression does not have a bare type by value. -/
theorem WellFormed.typeByValue_bare_iff (hg : g.WellFormed) {e : ExprHandle}
    (he : g.contains e = true) : g.IsBare (g.typeByValue e) ↔ g.OneLayer (g.exprType e) := by
  constructor
  · intro hbare
    rw [typeByValue] at hbare
    split at hbare
    · next hr =>
      refine ⟨isQualified_of_isReference hr, eq_false_of_ne_true fun hr' => ?_⟩
      have hkept := unqualified_of_plain (isQualified_of_isReference hr')
      rw [valueType, hkept] at hbare
      exact absurd hr' (hbare.isReference ▸ Bool.false_ne_true)
    · next hr =>
      refine ⟨hbare.isQualified, ?_⟩
      rw [nonReference_of_plain (eq_false_of_ne_true hr)]
      exact hbare.isReference
  · intro h
    rw [hg.typeByValue_of_oneLayer he h]
    exact hg.isBare_bareType (hg.contains_exprType he)

/-! ## Conversions -/

/-- A value of the first type can be converted to the second. -/
def Converts (g : Graph) (s t : TypeHandle) : Prop :=
  s = g.unqualified t ∨ (g.conversionKind? s (g.unqualified t)).isSome = true

/-- A conversion step starts from a bare type. -/
theorem isBare_of_conversionKind? {s : TypeHandle}
    (h : (g.conversionKind? s t).isSome = true) : g.IsBare s := by
  rw [conversionKind?] at h
  refine ⟨?_, ?_⟩
  · rw [Graph.isReference]
    cases hf : g.type s with
    | reference a => rw [hf] at h; cases h
    | _ => rfl
  · cases hf : g.type s with
    | qualified base quals => rw [hf] at h; cases h
    | _ => rfl

/-- So only values of a bare type are converted to the type of an object. -/
theorem WellFormed.isBare_of_converts (hg : g.WellFormed) {s : TypeHandle}
    (ht : g.contains t = true) (hr : g.isReference t = false) (h : g.Converts s t) :
    g.IsBare s := by
  rcases h with rfl | h
  · exact hg.isBare_unqualified ht hr
  · exact isBare_of_conversionKind? h

/-- **The three ways in which a conversion ends**: the value has the type already, there is a step
to the type, or there is none. -/
theorem WellFormed.convert_eq (hg : g.WellFormed) {e : ExprHandle} (he : g.contains e = true)
    (ht : g.contains t = true) : Build.convert e t g =
      if g.typeByValue e = g.unqualified t then
        (.ok (Build.valueOf e g).1, (Build.valueOf e g).2)
      else
        match g.conversionKind? (g.typeByValue e) (g.unqualified t) with
        | some kind =>
          let r := Build.conversion kind (g.unqualified t) (Build.valueOf e g).1
            (Build.valueOf e g).2
          (.ok r.1, r.2)
        | none =>
          (.error (.type (.noConversion (g.typeByValue e) (g.unqualified t))),
            (Build.valueOf e g).2) := by
  obtain ⟨hgrow, -, htype⟩ := Build.Yields.valueOf hg he
  have hext := hgrow.extends
  rw [Build.convert, Attempt.lift_bind, Attempt.get_bind, Attempt.get_bind, htype,
    hext.unqualified ht]
  split
  · rfl
  · rw [Attempt.get_bind, hg.conversionKind?_extend hext (hg.contains_typeByValue he)
      (hg.contains_unqualified ht)]
    cases g.conversionKind? (g.typeByValue e) (g.unqualified t) with
    | some kind => rfl
    | none => rfl

/-- **A conversion succeeds exactly if the expression by value can be converted.** -/
theorem WellFormed.isOk_convert (hg : g.WellFormed) {e : ExprHandle} (he : g.contains e = true)
    (ht : g.contains t = true) :
    (Build.convert e t g).1.isOk = true ↔ g.Converts (g.typeByValue e) t := by
  rw [hg.convert_eq he ht, Converts]
  split
  · next heq => exact iff_of_true rfl (.inl heq)
  · next hne =>
    rw [or_iff_right hne]
    cases g.conversionKind? (g.typeByValue e) (g.unqualified t) with
    | some kind => exact iff_of_true rfl rfl
    | none => exact iff_of_false Bool.false_ne_true Bool.false_ne_true

/-- **One layer is taken off to get at a value.**  By value an expression has a bare type, one that
is neither a reference nor qualified, exactly if there is one layer around its type.  In this case
it can be converted to each type that is its bare type up to qualifiers.  In any other case it can
be converted to no type that is no reference. -/
theorem Reachable.value_bare_iff (hg : g.Reachable) {e : ExprHandle} (he : g.contains e = true) :
    ((Build.valueOf e g).2.IsBare ((Build.valueOf e g).2.exprType (Build.valueOf e g).1) ↔
      g.OneLayer (g.exprType e)) ∧
    (g.OneLayer (g.exprType e) → ∀ t, g.contains t = true →
      g.unqualified t = g.bareType (g.exprType e) → (Build.convert e t g).1.isOk = true) ∧
    (¬ g.OneLayer (g.exprType e) → ∀ t, g.contains t = true →
      g.isReference t = false → (Build.convert e t g).1.isOk = false) := by
  have hw := hg.wellFormed
  refine ⟨?_, fun h t ht heq => ?_, fun h t ht hr => ?_⟩
  · obtain ⟨hgrow, -, htype⟩ := Build.Yields.valueOf hw he
    have hc := hw.contains_typeByValue he
    rw [← hw.typeByValue_bare_iff he, htype]
    constructor
    · rintro ⟨hr, hq⟩
      rw [hgrow.extends.isReference hc] at hr
      rw [hgrow.extends.type hc] at hq
      exact ⟨hr, hq⟩
    · rintro ⟨hr, hq⟩
      rw [← hgrow.extends.isReference hc] at hr
      rw [← hgrow.extends.type hc] at hq
      exact ⟨hr, hq⟩
  · rw [hw.isOk_convert he ht]
    exact .inl ((hw.typeByValue_of_oneLayer he h).trans heq.symm)
  · refine eq_false_of_ne_true fun hok => h ((hw.typeByValue_bare_iff he).1 ?_)
    exact hw.isBare_of_converts ht hr ((hw.isOk_convert he ht).1 hok)

/-! ## A call of `const int f()` and a name of `int& r` -/

/-- The graph of `int x`, `int& r` and `const int f()`, with the names 0, 1 and 2 of the three and
the call 3 of `f`.  The type `int` is 3, and `const int` is 6. -/
def layeredNames : Graph :=
  let g := (Build.intType (Graph.initial .empty 32)).2
  let g := (Build.referenceType ⟨3⟩ g).2
  let g := (Build.variableDecl .globalName ⟨3⟩ none g).2
  let g := (Build.variableDecl .globalName ⟨4⟩ none g).2
  let g := ((Build.referenceTo ⟨1⟩).run g).2
  let g := ((Build.referenceTo ⟨2⟩).run g).2
  let g := (Build.qualifiedType ⟨3⟩ .const g).2
  let g := ((Build.functionDecl .globalName [] ⟨6⟩).run g).2
  let g := ((Build.referenceTo ⟨3⟩).run g).2
  (Build.call ⟨6⟩ ⟨2⟩ [] g).2

theorem layeredNames_reachable : layeredNames.Reachable := by
  have hint := (Reachable.initial .empty 32).operation (x := Build.intType) .intType
  have href := hint.operation (x := Build.referenceType ⟨3⟩) (.referenceType rfl)
  have hx := href.operation (x := Build.variableDecl .globalName ⟨3⟩ none)
    (.variableDecl rfl rfl (by rintro _ ⟨⟩))
  have hr := hx.operation (x := Build.variableDecl .globalName ⟨4⟩ none)
    (.variableDecl rfl rfl (by rintro _ ⟨⟩))
  have hex := hr.operation (x := (Build.referenceTo ⟨1⟩).run) (.referenceTo rfl)
  have her := hex.operation (x := (Build.referenceTo ⟨2⟩).run) (.referenceTo rfl)
  have hconst := her.operation (x := Build.qualifiedType ⟨3⟩ .const) (.qualifiedType .const rfl)
  have hf := hconst.operation (x := (Build.functionDecl .globalName [] ⟨6⟩).run)
    (.functionDecl rfl (by rintro _ ⟨⟩) rfl)
  have hef := hf.operation (x := (Build.referenceTo ⟨3⟩).run) (.referenceTo rfl)
  exact hef.operation (x := Build.call ⟨6⟩ ⟨2⟩ []) (.call rfl rfl (by rintro _ ⟨⟩))

/-- The name of `x` can be converted to `const int`, and the call of `f` to nothing. -/
theorem value_bare_iff_layeredNames :
    layeredNames.Reachable ∧
    (layeredNames.contains (⟨0⟩ : ExprHandle) = true ∧
      layeredNames.OneLayer (layeredNames.exprType ⟨0⟩) ∧
      (Build.valueOf ⟨0⟩ layeredNames).2.IsBare
        ((Build.valueOf ⟨0⟩ layeredNames).2.exprType (Build.valueOf ⟨0⟩ layeredNames).1) ∧
      layeredNames.contains (⟨6⟩ : TypeHandle) = true ∧
      layeredNames.unqualified ⟨6⟩ = layeredNames.bareType (layeredNames.exprType ⟨0⟩) ∧
      (Build.convert ⟨0⟩ ⟨6⟩ layeredNames).1.isOk = true) ∧
    (layeredNames.contains (⟨3⟩ : ExprHandle) = true ∧
      ¬ layeredNames.OneLayer (layeredNames.exprType ⟨3⟩) ∧
      layeredNames.contains (⟨3⟩ : TypeHandle) = true ∧ layeredNames.isReference ⟨3⟩ = false ∧
      (Build.convert ⟨3⟩ ⟨3⟩ layeredNames).1.isOk = false) := by
  have hg := layeredNames_reachable
  have hone : layeredNames.OneLayer (layeredNames.exprType ⟨0⟩) := ⟨rfl, rfl⟩
  have hmore : ¬ layeredNames.OneLayer (layeredNames.exprType ⟨3⟩) := by rintro ⟨⟨⟩, _⟩
  have hbare : layeredNames.unqualified ⟨6⟩ =
      layeredNames.bareType (layeredNames.exprType ⟨0⟩) := by
    rw [← hg.wellFormed.bareType_nonReference (by decide +kernel), bareType_of_plain rfl]
    rfl
  obtain ⟨hvalue, hconvert, -⟩ := hg.value_bare_iff (e := ⟨0⟩) (by decide +kernel)
  have hcall := (hg.value_bare_iff (e := ⟨3⟩) (by decide +kernel)).2.2 hmore
  exact ⟨hg, ⟨rfl, hone, hvalue.2 hone, rfl, hbare, hconvert hone ⟨6⟩ rfl hbare⟩,
    ⟨rfl, hmore, rfl, rfl, hcall ⟨3⟩ rfl rfl⟩⟩

/-- By value the call of `f` is still `const int`, and the name of `r` is still `int&`.  Neither can
be converted to `int`, nor the call to `const int`. -/
theorem value_not_bare_layeredNames :
    layeredNames.Reachable ∧
    (layeredNames.contains (⟨3⟩ : ExprHandle) = true ∧
      ((Build.valueOf ⟨3⟩ layeredNames).2.type
        ((Build.valueOf ⟨3⟩ layeredNames).2.exprType
          (Build.valueOf ⟨3⟩ layeredNames).1)).isQualified = true ∧
      layeredNames.contains (⟨3⟩ : TypeHandle) = true ∧
      layeredNames.unqualified ⟨3⟩ = layeredNames.bareType (layeredNames.exprType ⟨3⟩) ∧
      (Build.convert ⟨3⟩ ⟨3⟩ layeredNames).1 = .error (.type (.noConversion ⟨6⟩ ⟨3⟩)) ∧
      layeredNames.contains (⟨6⟩ : TypeHandle) = true ∧
      layeredNames.unqualified ⟨6⟩ = layeredNames.bareType (layeredNames.exprType ⟨3⟩) ∧
      (Build.convert ⟨3⟩ ⟨6⟩ layeredNames).1 = .error (.type (.noConversion ⟨6⟩ ⟨3⟩))) ∧
    (layeredNames.contains (⟨1⟩ : ExprHandle) = true ∧
      (Build.valueOf ⟨1⟩ layeredNames).2.isReference
        ((Build.valueOf ⟨1⟩ layeredNames).2.exprType (Build.valueOf ⟨1⟩ layeredNames).1) = true ∧
      layeredNames.unqualified ⟨3⟩ = layeredNames.bareType (layeredNames.exprType ⟨1⟩) ∧
      (Build.convert ⟨1⟩ ⟨3⟩ layeredNames).1 = .error (.type (.noConversion ⟨4⟩ ⟨3⟩))) := by
  have hg := layeredNames_reachable
  have hcall : layeredNames.bareType (layeredNames.exprType ⟨3⟩) = ⟨3⟩ := by
    rw [bareType_of_plain rfl]
    rfl
  have hname : layeredNames.bareType (layeredNames.exprType ⟨1⟩) = ⟨3⟩ := by
    rw [← hg.wellFormed.bareType_nonReference (by decide +kernel),
      ← hg.wellFormed.bareType_nonReference (by decide +kernel), bareType_of_plain rfl]
    rfl
  rw [hcall, hname]
  exact ⟨hg, by decide +kernel, by decide +kernel⟩

end Graph
end SemanticCore
