import SemanticCore.Proofs.Action.Value

/-!
# What a conversion makes of an expression

A standard conversion reads the value of an expression and then takes at most one step.  A client
that converts an expression wants to know what it has got: the type, the conversion nodes that
stand between the expression and the result, and that converting the result once more changes
nothing.  When the conversion fails, the client goes on with the graph as it is then, so it matters
as well what has been left there.

`Graph.ByValue` is the first part of this, the expression itself or one value conversion directly
on it, and `ConversionKind.IsStep` has the kinds of the second.

* `Graph.WellFormed.convert_self_iff` — when an expression is converted to itself.
* `Graph.Reachable.convert_shape` — **what a conversion returns, and what a failed one leaves.**
-/

set_option autoImplicit false
namespace SemanticCore

open SemanticCore.Graph

/-- The conversions that lead from a value to a value of another type. -/
inductive ConversionKind.IsStep : ConversionKind → Prop
  | qualification : IsStep .qualification
  | boolean : IsStep .boolean
  | integer : IsStep .integer
  | float : IsStep .float

namespace Graph

variable {g g' : Graph} {e v r : ExprHandle} {t : TypeHandle}

/-- The graph in which a value conversion of the expression comes last. -/
def readValue (g : Graph) (e : ExprHandle) : Graph :=
  { g with exprs := g.exprs.push ⟨.conversion .value e, g.valueType (g.exprType e)⟩ }

/-- The expression `v` of the second graph is `e` by value: a value conversion directly on `e` if
`e` is a reference, and `e` itself otherwise. -/
def ByValue (g : Graph) (e : ExprHandle) (g' : Graph) (v : ExprHandle) : Prop :=
  if g.isReference (g.exprType e) then
    g'.expr v = ⟨.conversion .value e, g.valueType (g.exprType e)⟩
  else
    v = e

/-! ## The value -/

theorem valueOf_of_plain (hr : g.isReference (g.exprType e) = false) :
    Build.valueOf e g = (e, g) := by
  change (if g.isReference (g.exprType e) then _ else _ : Build ExprHandle) g = _
  rw [hr]
  rfl

theorem valueOf_of_reference (hr : g.isReference (g.exprType e) = true) :
    Build.valueOf e g = (⟨g.exprs.size⟩, g.readValue e) := by
  change (if g.isReference (g.exprType e) then _ else _ : Build ExprHandle) g = _
  rw [hr]
  rfl

theorem valueOf_byValue (g : Graph) (e : ExprHandle) :
    g.ByValue e (Build.valueOf e g).2 (Build.valueOf e g).1 := by
  rw [ByValue]
  split
  · next hr =>
    rw [valueOf_of_reference hr]
    exact (getD_push ..).trans (if_pos rfl)
  · next hr => rw [valueOf_of_plain (eq_false_of_ne_true hr)]

/-- Reading a value adds a value conversion to the graph, or nothing. -/
theorem valueOf_graph (g : Graph) (e : ExprHandle) : (Build.valueOf e g).2 =
    if g.isReference (g.exprType e) then g.readValue e else g := by
  split
  · next hr => rw [valueOf_of_reference hr]
  · next hr => rw [valueOf_of_plain (eq_false_of_ne_true hr)]

/-! ## The step that follows -/

theorem isStep_of_conversionKind? {s : TypeHandle} {kind : ConversionKind}
    (h : g.conversionKind? s t = some kind) : kind.IsStep := by
  rw [conversionKind?] at h
  cases hs : g.type s with
  | pointer p =>
    cases ht : g.type t with
    | pointer q =>
      simp only [hs, ht, Option.ite_none_right_eq_some] at h
      exact Option.some.inj h.2 ▸ .qualification
    | bool => rw [hs, ht] at h; cases h; exact .boolean
    | _ => rw [hs, ht] at h; cases h
  | bool | int _ _ | float =>
    cases ht : g.type t <;> rw [hs, ht] at h <;> cases h <;> constructor
  | _ => rw [hs] at h; cases h

theorem ByValue.extend {g'' : Graph} (h : g.ByValue e g' v) (hv : g'.contains v = true)
    (hext : g'.Extends g'') : g.ByValue e g'' v := by
  rw [ByValue] at h ⊢
  rwa [hext.expr hv]

/-! ## Converting twice -/

/-- Reading the value of a reference always adds a node. -/
theorem WellFormed.convert_ne_self (hg : g.WellFormed) (he : g.contains e = true)
    (ht : g.contains t = true) (hr : g.isReference (g.exprType e) = true) :
    Build.convert e t g ≠ (.ok e, g) := by
  intro h
  have hsize : g.exprs.size < (Build.convert e t g).2.exprs.size := by
    have hread : g.exprs.size < (g.readValue e).exprs.size := lt_size_push _ _
    rw [hg.convert_eq he ht, valueOf_of_reference hr]
    split
    · exact hread
    · split
      · exact hread.trans (lt_size_push _ _)
      · exact hread
  rw [h] at hsize
  exact hsize.false

/-- **An expression of the unqualified type is converted to itself**, unless it is a reference. -/
theorem WellFormed.convert_self_iff (hg : g.WellFormed) (he : g.contains e = true)
    (ht : g.contains t = true) (htype : g.exprType e = g.unqualified t) :
    Build.convert e t g = (.ok e, g) ↔ g.isReference t = false := by
  rw [← hg.isReference_unqualified ht, ← htype]
  constructor
  · intro h
    exact eq_false_of_ne_true fun hr => hg.convert_ne_self he ht hr h
  · intro hr
    have hvalue : g.typeByValue e = g.unqualified t := by
      rw [typeByValue, hr, ← htype]
      rfl
    rw [hg.convert_eq he ht, if_pos hvalue, valueOf_of_plain hr]

/-! ## The result -/

/-- What has been made of an expression: its value, or one step that follows it. -/
theorem WellFormed.convert_ok (hg : g.WellFormed) (he : g.contains e = true)
    (ht : g.contains t = true) (h : Build.convert e t g = (.ok r, g')) :
    (g'.contains r = true ∧ g'.exprType r = g.unqualified t) ∧
    ∃ v, g.ByValue e g' v ∧ (r = v ∨ ∃ kind : ConversionKind, kind.IsStep ∧
      g'.expr r = ⟨.conversion kind v, g.unqualified t⟩) := by
  obtain ⟨hgrow, hv, htype⟩ := Build.Yields.valueOf hg he
  have hread := valueOf_byValue g e
  rw [hg.convert_eq he ht] at h
  split at h
  · next heq =>
    cases h
    exact ⟨⟨hv, htype.trans heq⟩, _, hread, .inl rfl⟩
  · split at h
    · next kind hkind =>
      cases h
      have hfits : Expr.Fits (Build.valueOf e g).2
          ⟨.conversion kind (Build.valueOf e g).1, g.unqualified t⟩ :=
        ⟨hgrow.contains (hg.contains_unqualified ht), hv⟩
      obtain ⟨hgrow', hr, hexpr⟩ := Build.Yields.expr hfits
      exact ⟨⟨hr, congrArg Expr.type hexpr⟩, _, hread.extend hv hgrow'.extends,
        .inr ⟨kind, isStep_of_conversionKind? hkind, hexpr⟩⟩
    · cases h

/-- Why a conversion fails, and that at most a value conversion is left. -/
theorem WellFormed.convert_error (hg : g.WellFormed) (he : g.contains e = true)
    (ht : g.contains t = true) {x : SemanticError} (h : Build.convert e t g = (.error x, g')) :
    x = .type (.noConversion (g.typeByValue e) (g.unqualified t)) ∧
      g' = (Build.valueOf e g).2 := by
  rw [hg.convert_eq he ht] at h
  split at h
  · cases h
  · split at h
    · cases h
    · cases h
      exact ⟨rfl, rfl⟩

/-- **What a conversion makes of an expression.**  If it succeeds, the result has the unqualified
target type, and is the expression by value, or one step from there; and at any later time it is
converted to itself without anything being added, unless the target is a reference.  If it fails,
the error names the type that the expression has by value and the unqualified target type, and the
graph has got at most a value conversion of the expression. -/
theorem Reachable.convert_shape (hg : g.Reachable) (he : g.contains e = true)
    (ht : g.contains t = true) :
    (∀ r g', Build.convert e t g = (.ok r, g') →
      g'.exprType r = g.unqualified t ∧
      (∃ v, g.ByValue e g' v ∧ (r = v ∨ ∃ kind : ConversionKind, kind.IsStep ∧
        g'.expr r = ⟨.conversion kind v, g.unqualified t⟩)) ∧
      ∀ g'', g'.Evolves g'' →
        (Build.convert r t g'' = (.ok r, g'') ↔ g.isReference t = false)) ∧
    ∀ x g', Build.convert e t g = (.error x, g') →
      x = .type (.noConversion ((Build.valueOf e g).2.exprType (Build.valueOf e g).1)
        (g.unqualified t)) ∧
      g' = if g.isReference (g.exprType e) then g.readValue e else g := by
  have hw := hg.wellFormed
  refine ⟨fun r g' h => ?_, fun x g' h => ?_⟩
  · obtain ⟨⟨hr, htype⟩, hshape⟩ := hw.convert_ok he ht h
    refine ⟨htype, hshape, fun g'' hev => ?_⟩
    have hgrow : g.Grows g' := by
      have hyields := (Attempt.Yields.convert_source hw he ht).1
      rwa [h] at hyields
    have hgrow' := hev.grows (hgrow.wellFormed hw)
    have hext := hgrow.extends.trans hgrow'.extends
    rw [← hext.isReference ht]
    refine (hgrow'.wellFormed (hgrow.wellFormed hw)).convert_self_iff (hgrow'.contains hr)
      (hext.contains ht) ?_
    rw [hgrow'.extends.exprType hr, htype, hext.unqualified ht]
  · obtain ⟨rfl, rfl⟩ := hw.convert_error he ht h
    exact ⟨by rw [(Build.Yields.valueOf hw he).2.2], valueOf_graph g e⟩

/-- The name of `int* p` is converted to `const int*` by a value conversion and a qualification, and
what comes of it is converted to itself after a literal has been built; it cannot be converted to
`int`, and then the value conversion is left. -/
theorem convert_shape_pointerVariable :
    pointerVariable.Reachable ∧
    (pointerVariable.contains (⟨0⟩ : ExprHandle) = true ∧
      pointerVariable.contains (⟨7⟩ : TypeHandle) = true ∧
      Build.convert ⟨0⟩ ⟨7⟩ pointerVariable = (.ok ⟨2⟩, constPointer) ∧
      constPointer.exprType ⟨2⟩ = pointerVariable.unqualified ⟨7⟩ ∧
      (∃ v, pointerVariable.ByValue ⟨0⟩ constPointer v ∧ ((⟨2⟩ : ExprHandle) = v ∨
        ∃ kind : ConversionKind, kind.IsStep ∧
          constPointer.expr ⟨2⟩ = ⟨.conversion kind v, pointerVariable.unqualified ⟨7⟩⟩)) ∧
      Build.convert ⟨2⟩ ⟨7⟩ (Build.boolLiteral true constPointer).2 =
        (.ok ⟨2⟩, (Build.boolLiteral true constPointer).2)) ∧
    (pointerVariable.contains (⟨3⟩ : TypeHandle) = true ∧
      (Build.convert ⟨0⟩ ⟨3⟩ pointerVariable).1 = .error (.type (.noConversion ⟨4⟩ ⟨3⟩)) ∧
      (Build.convert ⟨0⟩ ⟨3⟩ pointerVariable).2 = pointerVariable.readValue ⟨0⟩) := by
  have hg := pointerVariable_reachable
  have he : pointerVariable.contains (⟨0⟩ : ExprHandle) = true := by decide +kernel
  have ht : pointerVariable.contains (⟨7⟩ : TypeHandle) = true := by decide +kernel
  have ht' : pointerVariable.contains (⟨3⟩ : TypeHandle) = true := by decide +kernel
  have herror : (Build.convert ⟨0⟩ ⟨3⟩ pointerVariable).1 =
      .error (.type (.noConversion ⟨4⟩ ⟨3⟩)) := by decide +kernel
  have hr : pointerVariable.isReference (pointerVariable.exprType ⟨0⟩) = true := by decide +kernel
  obtain ⟨htype, hshape, hagain⟩ := (hg.convert_shape he ht).1 _ _ convert_constPointer
  have hliteral : constPointer.Evolves (Build.boolLiteral true constPointer).2 :=
    Evolves.refl.operation (.boolLiteral true)
  have hleft := ((hg.convert_shape he ht').2 _ _ (Prod.ext herror rfl)).2
  rw [if_pos hr] at hleft
  exact ⟨hg, ⟨he, ht, convert_constPointer, htype, hshape,
    (hagain _ hliteral).2 (by decide +kernel)⟩, ht', herror, hleft⟩

end Graph
end SemanticCore
