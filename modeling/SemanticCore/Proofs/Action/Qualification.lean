import SemanticCore.Proofs.Action.Initializer

/-!
# Qualifiers below a pointer or a reference are never dropped

A standard conversion ends in a pointer only if it starts from one, since no step leads to a pointer
from anything else, and the step between two pointers leaves the type pointed to as it is, up to
top-level qualifiers, of which it may only add some.  This is said of single steps, and a hole in
such rules shows only when steps are combined: a chain of conversions may take a detour through
other types, with whatever happens to the graph in between.

`Graph.Converted` says that an expression comes from another one by such a chain, and
`Graph.AddsQualifiers` is what the pointees of the two have in common: the very same unqualified
type, and in the end at least the qualifiers of the beginning.

* `Graph.conversionKind?_pointer` — the single step to a pointer.
* `Attempt.Yields.convert_source` — where a conversion that succeeds comes from.
* `Graph.Converted.keepsPointee` — every chain keeps the pointee.
* `Graph.Reachable.qualifiers_kept` — **a pointer that a chain ends in, and a reference that is
  bound, never lack a qualifier of what they were made from.**
-/

set_option autoImplicit false
namespace SemanticCore

open SemanticCore.Graph

namespace Qualifiers

variable {a b c : Qualifiers}

theorem covers_iff :
    a.covers b = true ↔
      (b.isConst = true → a.isConst = true) ∧ (b.isVolatile = true → a.isVolatile = true) := by
  rcases a with ⟨_ | _, _ | _⟩ <;> rcases b with ⟨_ | _, _ | _⟩ <;> decide

theorem covers_refl (a : Qualifiers) : a.covers a = true :=
  covers_iff.mpr ⟨id, id⟩

theorem covers_trans (h : a.covers b = true) (h' : b.covers c = true) : a.covers c = true := by
  rw [covers_iff] at h h' ⊢
  exact ⟨h.1 ∘ h'.1, h.2 ∘ h'.2⟩

end Qualifiers

namespace Graph

variable {g g' g'' : Graph}

/-! ## Adding qualifiers -/

/-- The types are the same up to top-level qualifiers, and the second has those of the first. -/
structure AddsQualifiers (g : Graph) (s t : TypeHandle) : Prop where
  related : g.unqualified s = g.unqualified t
  covers : (g.quals t).covers (g.quals s) = true

namespace AddsQualifiers

variable {s t u : TypeHandle}

theorem refl (g : Graph) (t : TypeHandle) : g.AddsQualifiers t t :=
  ⟨rfl, Qualifiers.covers_refl _⟩

theorem trans (h : g.AddsQualifiers s t) (h' : g.AddsQualifiers t u) : g.AddsQualifiers s u :=
  ⟨h.related.trans h'.related, Qualifiers.covers_trans h'.covers h.covers⟩

theorem extend (h : g.AddsQualifiers s t) (hext : g.Extends g') (hs : g.contains s = true)
    (ht : g.contains t = true) : g'.AddsQualifiers s t := by
  refine ⟨?_, ?_⟩
  · rw [hext.unqualified hs, hext.unqualified ht, h.related]
  · rw [hext.quals hs, hext.quals ht]
    exact h.covers

theorem of_referenceCompatible (h : g.referenceCompatible t s = true) : g.AddsQualifiers s t := by
  rw [referenceCompatible, referenceRelated, Bool.and_eq_true, decide_eq_true_iff] at h
  exact ⟨h.1.symm, h.2⟩

end AddsQualifiers

theorem WellFormed.contains_pointee (hg : g.WellFormed) {t p : TypeHandle}
    (ht : g.contains t = true) (h : g.type t = .pointer p) : g.contains p = true :=
  hg.contains_component ht (by rw [h]; exact List.mem_cons_self)

/-! ## A single step -/

/-- The one step that leads to a pointer starts from a pointer. -/
theorem conversionKind?_pointer {s t q : TypeHandle} {kind : ConversionKind}
    (h : g.conversionKind? s t = some kind) (ht : g.type t = .pointer q) :
    ∃ p, g.type s = .pointer p ∧ g.AddsQualifiers p q := by
  rw [conversionKind?, ht] at h
  cases hs : g.type s with
  | pointer p =>
    simp only [hs, Option.ite_none_right_eq_some] at h
    exact ⟨p, rfl, h.1.1, h.1.2⟩
  | _ => rw [hs] at h; cases h

/-- The type of what `Build.valueOf` makes of an expression. -/
def typeByValue (g : Graph) (e : ExprHandle) : TypeHandle :=
  if g.isReference (g.exprType e) then g.valueType (g.exprType e) else g.exprType e

theorem valueType_of_plain {t : TypeHandle} (hr : g.isReference t = false)
    (hq : (g.type t).isQualified = false) : g.valueType t = t := by
  rw [valueType, nonReference_of_plain hr, unqualified_of_plain hq]

/-- An expression that is not a reference keeps its qualifiers by value, so that a pointer there is
one without qualifiers. -/
theorem valueType_of_typeByValue {e : ExprHandle} {p : TypeHandle}
    (h : g.type (g.typeByValue e) = .pointer p) :
    g.type (g.valueType (g.exprType e)) = .pointer p := by
  rw [typeByValue] at h
  split at h
  · exact h
  · rwa [valueType_of_plain (by rw [isReference, h]; rfl) (by rw [h]; rfl)]

theorem WellFormed.contains_typeByValue (hg : g.WellFormed) {e : ExprHandle}
    (he : g.contains e = true) : g.contains (g.typeByValue e) = true := by
  rw [typeByValue]
  split
  · exact hg.contains_valueType (hg.contains_exprType he)
  · exact hg.contains_exprType he

/-- What is left of a type that is no reference has neither a reference nor qualifiers. -/
theorem WellFormed.valueType_unqualified (hg : g.WellFormed) {t : TypeHandle}
    (ht : g.contains t = true) (hr : g.isReference t = false) :
    g.valueType (g.unqualified t) = g.unqualified t :=
  valueType_of_plain ((hg.isReference_unqualified ht).trans hr)
    (hg.isQualified_unqualified ht)

end Graph

/-- The value of an expression has the type of the expression by value. -/
theorem Build.Yields.valueOf {g : Graph} (hg : g.WellFormed) {e : ExprHandle}
    (he : g.contains e = true) :
    Build.Yields g (Build.valueOf e) fun v g' =>
      g'.contains v = true ∧ g'.exprType v = g.typeByValue e := by
  refine .get_bind (.get_bind ?_)
  rw [typeByValue]
  split
  · have ht := hg.contains_valueType (hg.contains_exprType he)
    exact .get_bind (.exprType (f := .conversion .value e) ⟨ht, he⟩)
  · exact .pure ⟨he, rfl⟩

/-- **Where a conversion that succeeds comes from**: by value the expression has the type that is
converted to, or there is a single step to that type. -/
theorem Attempt.Yields.convert_source {g : Graph} (hg : g.WellFormed) {e : ExprHandle}
    {t : TypeHandle} (he : g.contains e = true) (ht : g.contains t = true) :
    Attempt.Yields g (Build.convert e t) fun x g' =>
      (g'.contains x = true ∧ g'.exprType x = g.unqualified t) ∧
        (g.typeByValue e = g.unqualified t ∨
          ∃ kind, g.conversionKind? (g.typeByValue e) (g.unqualified t) = some kind) := by
  refine .bind hg (.lift (.valueOf hg he)) fun v g₁ hgrow hg₁ hv => ?_
  refine .get_bind (.get_bind ?_)
  dsimp only
  rw [hv.2, hgrow.extends.unqualified ht]
  have htarget := hg.contains_unqualified ht
  split
  · next heq => exact .pure ⟨⟨hv.1, hv.2.trans heq⟩, .inl heq⟩
  · refine .get_bind ?_
    rw [hg.conversionKind?_extend hgrow.extends (hg.contains_typeByValue he) htarget]
    split
    · next kind hkind =>
      have hexpr : Expr.Fits g₁ ⟨.conversion kind v, g.unqualified t⟩ :=
        ⟨hgrow.contains htarget, hv.1⟩
      exact (Attempt.Yields.lift (.exprType hexpr)).mono fun _ _ hx => ⟨hx, .inr ⟨kind, hkind⟩⟩
    · exact .throw _

namespace Graph

variable {g g' g'' : Graph} {e x y : ExprHandle}

/-! ## Chains -/

/-- If the second expression is a pointer by value, then so is the first one, and the second points
to what the first one points to, with qualifiers added. -/
def KeepsPointee (g : Graph) (e : ExprHandle) (g' : Graph) (x : ExprHandle) : Prop :=
  ∀ q, g'.type (g'.valueType (g'.exprType x)) = .pointer q →
    ∃ p, g.type (g.valueType (g.exprType e)) = .pointer p ∧ g'.AddsQualifiers p q

namespace KeepsPointee

/-- An expression is by value what it was in the graph that was extended. -/
theorem of_extends (hg : g.WellFormed) (he : g.contains e = true) (h : g.Extends g') :
    g.KeepsPointee e g' e := by
  intro q hq
  have ht := hg.contains_exprType he
  rw [h.exprType he, hg.valueType_extend h ht, h.type (hg.contains_valueType ht)] at hq
  exact ⟨q, hq, .refl g' q⟩

theorem trans (hg : g.WellFormed) (he : g.contains e = true) (h : g.KeepsPointee e g' x)
    (h' : g'.KeepsPointee x g'' y) (hg' : g'.WellFormed) (hx : g'.contains x = true)
    (hext : g.Extends g') (hext' : g'.Extends g'') : g.KeepsPointee e g'' y := by
  intro r hr
  obtain ⟨q, hq, hqr⟩ := h' r hr
  obtain ⟨p, hp, hpq⟩ := h q hq
  have hcp := hg.contains_pointee (hg.contains_valueType (hg.contains_exprType he)) hp
  have hcq := hg'.contains_pointee (hg'.contains_valueType (hg'.contains_exprType hx)) hq
  exact ⟨p, hp, (hpq.extend hext' (hext.contains hcp) hcq).trans hqr⟩

/-- A conversion to a type that is no reference keeps the pointee. -/
theorem convert (hg : g.WellFormed) {t : TypeHandle} (he : g.contains e = true)
    (ht : g.contains t = true) (hr : g.isReference t = false)
    (h : Build.convert e t g = (.ok x, g')) : g.KeepsPointee e g' x := by
  have hyields := Attempt.Yields.convert_source hg he ht
  obtain ⟨⟨hx, htype⟩, hsource⟩ := hyields.2 x (congrArg Prod.fst h)
  have hext := hyields.1.extends
  rw [h] at htype hext
  intro q hq
  have htarget := hg.contains_unqualified ht
  rw [htype, hg.valueType_extend hext htarget, hg.valueType_unqualified ht hr,
    hext.type htarget] at hq
  obtain ⟨p, hp, hpq⟩ : ∃ p, g.type (g.typeByValue e) = .pointer p ∧ g.AddsQualifiers p q := by
    rcases hsource with heq | ⟨kind, hkind⟩
    · exact ⟨q, heq ▸ hq, .refl g q⟩
    · exact conversionKind?_pointer hkind hq
  refine ⟨p, valueType_of_typeByValue hp, hpq.extend hext ?_ (hg.contains_pointee htarget hq)⟩
  exact hg.contains_pointee (hg.contains_typeByValue he) hp

end KeepsPointee

/-- The second expression comes from the first by conversions to types that are no references, with
operations and runs in between. -/
inductive Converted (g : Graph) (e : ExprHandle) : Graph → ExprHandle → Prop
  | refl : Converted g e g e
  | evolve {g' g'' : Graph} {x : ExprHandle} (h : Converted g e g' x) (hev : g'.Evolves g'') :
    Converted g e g'' x
  | convert {g' g'' : Graph} {x y : ExprHandle} {t : TypeHandle} (h : Converted g e g' x)
    (ht : g'.contains t = true) (hr : g'.isReference t = false)
    (hx : Build.convert x t g' = (.ok y, g'')) : Converted g e g'' y

/-- **Every chain of conversions keeps the pointee.** -/
theorem Converted.keepsPointee (hg : g.WellFormed) (he : g.contains e = true)
    (h : g.Converted e g' x) :
    (g.Grows g' ∧ g'.contains x = true) ∧ g.KeepsPointee e g' x := by
  induction h with
  | refl => exact ⟨⟨.refl g, he⟩, .of_extends hg he (.refl g)⟩
  | @evolve g' g'' x h hev ih =>
    obtain ⟨⟨hgrow, hx⟩, hkeeps⟩ := ih
    have hg' := hgrow.wellFormed hg
    have hgrow' := hev.grows hg'
    refine ⟨⟨hgrow.trans hgrow', hgrow'.contains hx⟩, ?_⟩
    exact hkeeps.trans hg he (.of_extends hg' hx hgrow'.extends) hg' hx hgrow.extends
      hgrow'.extends
  | @convert g' g'' x y t h ht hr hconvert ih =>
    obtain ⟨⟨hgrow, hx⟩, hkeeps⟩ := ih
    have hg' := hgrow.wellFormed hg
    have hyields := Attempt.Yields.convert_source hg' hx ht
    have hgrow' := hyields.1
    have hy := (hyields.2 y (congrArg Prod.fst hconvert)).1.1
    rw [hconvert] at hgrow' hy
    refine ⟨⟨hgrow.trans hgrow', hy⟩, ?_⟩
    exact hkeeps.trans hg he (.convert hg' hx ht hr hconvert) hg' hx hgrow.extends hgrow'.extends

end Graph

/-! ## Binding a reference -/

/-- **A reference is bound to an expression that names an object**, and adds qualifiers to the type
of the object. -/
theorem Attempt.Yields.initReference {g : Graph} {t : TypeHandle} {e : ExprHandle}
    (ht : g.contains t = true) (he : g.contains e = true) :
    Attempt.Yields g (Build.initReference t e) fun i g' => (g'.init i).form = .bind e ∧
      ∃ a b, g.type t = .reference a ∧ g.type (g.exprType e) = .reference b ∧
        g.AddsQualifiers b a := by
  refine .get_bind ?_
  split
  · exact .throw_bind _
  · next hr =>
    rw [Bool.not_eq_true', Bool.not_eq_false] at hr
    refine .get_bind (.get_bind (.get_bind (.get_bind (.get_bind ?_))))
    split
    · next hbind =>
      rw [Bool.and_eq_true] at hbind
      have hfits : Init.Fits g ⟨.bind e, t⟩ := ⟨ht, he⟩
      refine .lift ⟨(Build.Yields.init hfits).1, congrArg Init.form (Build.init_read g _ t),
        g.nonReference t, g.nonReference (g.exprType e), ?_⟩
      exact ⟨type_of_isReference hr, type_of_isReference hbind.1,
        .of_referenceCompatible hbind.2⟩
    · exact .throw _

/-- **Qualifiers are kept.**  If an expression that comes from another one by conversions is a
pointer by value, then so is that other one, and the types pointed to are the same, but for
qualifiers that were added.  If a reference is bound, then to an expression of reference type, and
the types referred to are the same, but for qualifiers that the reference adds. -/
theorem Graph.Reachable.qualifiers_kept {g : Graph} (hg : g.Reachable) {e : ExprHandle}
    (he : g.contains e = true) :
    (∀ g' x, g.Converted e g' x →
      ∀ q, g'.type (g'.valueType (g'.exprType x)) = .pointer q →
        ∃ p, g.type (g.valueType (g.exprType e)) = .pointer p ∧
          g'.unqualified p = g'.unqualified q ∧ (g'.quals q).covers (g'.quals p) = true) ∧
    ∀ t i g', g.contains t = true → Build.initReference t e g = (.ok i, g') →
      (g'.init i).form = .bind e ∧
        ∃ a b, g.type t = .reference a ∧ g.type (g.exprType e) = .reference b ∧
          g.unqualified a = g.unqualified b ∧ (g.quals a).covers (g.quals b) = true := by
  refine ⟨fun g' x hx q hq => ?_, fun t i g' ht hi => ?_⟩
  · obtain ⟨p, hp, hpq⟩ := (hx.keepsPointee hg.wellFormed he).2 q hq
    exact ⟨p, hp, hpq.related, hpq.covers⟩
  · have hbound := (Attempt.Yields.initReference ht he).2 i (congrArg Prod.fst hi)
    rw [hi] at hbound
    obtain ⟨hform, a, b, ha, hb, hba⟩ := hbound
    exact ⟨hform, a, b, ha, hb, hba.related.symm, hba.covers⟩

namespace Graph

/-- The graph of a name of a variable `int* p`, and of the types `const int*`,
`const volatile int*` and `int* const&`. -/
def pointerVariable : Graph :=
  let g := Graph.initial .empty 32
  let g := (Build.intType g).2
  let g := (Build.pointerType ⟨3⟩ g).2
  let g := (Build.variableDecl .globalName ⟨4⟩ none g).2
  let g := ((Build.referenceTo ⟨1⟩).run g).2
  let g := (Build.qualifiedType ⟨3⟩ .const g).2
  let g := (Build.pointerType ⟨6⟩ g).2
  let g := (Build.qualifiedType ⟨3⟩ ⟨true, true⟩ g).2
  let g := (Build.pointerType ⟨8⟩ g).2
  let g := (Build.qualifiedType ⟨4⟩ .const g).2
  (Build.referenceType ⟨10⟩ g).2

theorem pointerVariable_reachable : pointerVariable.Reachable := by
  have hint := (Reachable.initial .empty 32).operation (x := Build.intType) .intType
  have hptr := hint.operation (x := Build.pointerType ⟨3⟩) (.pointerType rfl)
  have hvar := hptr.operation (x := Build.variableDecl .globalName ⟨4⟩ none)
    (.variableDecl rfl rfl (by rintro _ ⟨⟩))
  have hname := hvar.operation (x := (Build.referenceTo ⟨1⟩).run) (.referenceTo rfl)
  have hc := hname.operation (x := Build.qualifiedType ⟨3⟩ .const) (.qualifiedType .const rfl)
  have hcp := hc.operation (x := Build.pointerType ⟨6⟩) (.pointerType rfl)
  have hcv := hcp.operation (x := Build.qualifiedType ⟨3⟩ ⟨true, true⟩) (.qualifiedType _ rfl)
  have hcvp := hcv.operation (x := Build.pointerType ⟨8⟩) (.pointerType rfl)
  have hpc := hcvp.operation (x := Build.qualifiedType ⟨4⟩ .const) (.qualifiedType .const rfl)
  exact hpc.operation (x := Build.referenceType ⟨10⟩) (.referenceType rfl)

/-- `p` converted to `const int*`. -/
def constPointer : Graph :=
  (Build.convert ⟨0⟩ ⟨7⟩ pointerVariable).2

/-- Then a literal is built, and what came of `p` is converted to `const volatile int*`. -/
def volatilePointer : Graph :=
  (Build.convert ⟨2⟩ ⟨9⟩ (Build.boolLiteral true constPointer).2).2

theorem convert_constPointer :
    Build.convert ⟨0⟩ ⟨7⟩ pointerVariable = (.ok ⟨2⟩, constPointer) := by
  have h : (Build.convert ⟨0⟩ ⟨7⟩ pointerVariable).1 = .ok ⟨2⟩ := by decide +kernel
  exact Prod.ext h (by rw [constPointer])

theorem convert_volatilePointer :
    Build.convert ⟨2⟩ ⟨9⟩ (Build.boolLiteral true constPointer).2 = (.ok ⟨4⟩, volatilePointer) := by
  have h : (Build.convert ⟨2⟩ ⟨9⟩ (Build.boolLiteral true constPointer).2).1 = .ok ⟨4⟩ := by
    decide +kernel
  exact Prod.ext h (by rw [volatilePointer])

theorem converted_volatilePointer : pointerVariable.Converted ⟨0⟩ volatilePointer ⟨4⟩ := by
  have hconst : pointerVariable.Converted ⟨0⟩ constPointer ⟨2⟩ :=
    Converted.refl.convert (by decide +kernel) (by decide +kernel) convert_constPointer
  have hliteral : pointerVariable.Converted ⟨0⟩ (Build.boolLiteral true constPointer).2 ⟨2⟩ :=
    hconst.evolve (Evolves.refl.operation (x := Build.boolLiteral true) (.boolLiteral true))
  exact .convert (t := ⟨9⟩) hliteral (by decide +kernel) (by decide +kernel) convert_volatilePointer

end Graph

theorem Graph.Reachable.qualifiers_kept_volatilePointer :
    (pointerVariable.Reachable ∧ pointerVariable.contains (⟨0⟩ : ExprHandle) = true ∧
      pointerVariable.Converted ⟨0⟩ volatilePointer ⟨4⟩ ∧
      volatilePointer.type (volatilePointer.valueType (volatilePointer.exprType ⟨4⟩)) =
        .pointer ⟨8⟩ ∧
      ∃ p, pointerVariable.type (pointerVariable.valueType (pointerVariable.exprType ⟨0⟩)) =
          .pointer p ∧
        volatilePointer.unqualified p = volatilePointer.unqualified ⟨8⟩ ∧
        (volatilePointer.quals ⟨8⟩).covers (volatilePointer.quals p) = true) ∧
    pointerVariable.contains (⟨11⟩ : TypeHandle) = true ∧
    (Build.initReference ⟨11⟩ ⟨0⟩ pointerVariable).1 = .ok ⟨0⟩ ∧
    ((Build.initReference ⟨11⟩ ⟨0⟩ pointerVariable).2.init ⟨0⟩).form = .bind ⟨0⟩ ∧
    ∃ a b, pointerVariable.type ⟨11⟩ = .reference a ∧
      pointerVariable.type (pointerVariable.exprType ⟨0⟩) = .reference b ∧
      pointerVariable.unqualified a = pointerVariable.unqualified b ∧
      (pointerVariable.quals a).covers (pointerVariable.quals b) = true := by
  have he : pointerVariable.contains (⟨0⟩ : ExprHandle) = true := by decide +kernel
  have ht : pointerVariable.contains (⟨11⟩ : TypeHandle) = true := by decide +kernel
  have hq : volatilePointer.type (volatilePointer.valueType (volatilePointer.exprType ⟨4⟩)) =
      .pointer ⟨8⟩ := by decide +kernel
  have hi : (Build.initReference ⟨11⟩ ⟨0⟩ pointerVariable).1 = .ok ⟨0⟩ := by decide +kernel
  have hkept := Graph.Reachable.qualifiers_kept pointerVariable_reachable he
  exact ⟨⟨pointerVariable_reachable, he, converted_volatilePointer, hq,
    hkept.1 _ _ converted_volatilePointer _ hq⟩, ht, hi, hkept.2 _ _ _ ht (Prod.ext hi rfl)⟩

end SemanticCore
