import SemanticCore.Expr.Operator
import SemanticCore.Initialization
import SemanticCore.Proofs.Graph.Constructor

/-!
# What resolution makes of expressions

Conversions, operators and initialization are chains of constructors: each step is handed the node
that the step before it has made.  So each of them adds to the graph as its constructors do, and
ends with a node of the graph or fails.
-/

set_option autoImplicit false
namespace SemanticCore

open SemanticCore.Graph

variable {g : Graph}

/-! ## Conversions -/

namespace Build.Makes

theorem intLiteral (hg : g.WellFormed) (value : Int) : Makes g (Build.intLiteral value) :=
  .bind hg intType fun _ _ _ _ ht => integerLiteral value ht

theorem uintLiteral (hg : g.WellFormed) (value : Int) : Makes g (Build.uintLiteral value) :=
  .bind hg uintType fun _ _ _ _ ht => integerLiteral value ht

theorem valueOf (hg : g.WellFormed) {e : ExprHandle} (he : g.contains e = true) :
    Makes g (Build.valueOf e) := by
  refine .get_bind (.get_bind ?_)
  split
  · exact .get_bind (conversion .value (hg.contains_valueType (hg.contains_exprType he)) he)
  · exact .pure he

theorem deferConversion {e : ExprHandle} {t : TypeHandle} (he : g.contains e = true)
    (ht : g.contains t = true) : Makes g (Build.deferConversion e t) :=
  conversion .dependent ht he

end Build.Makes

namespace Attempt.Makes

theorem convert (hg : g.WellFormed) {e : ExprHandle} {t : TypeHandle} (he : g.contains e = true)
    (ht : g.contains t = true) : Makes g (Build.convert e t) := by
  refine .bind hg (.lift (Build.Makes.valueOf hg he)) fun v g₁ hgrow hg₁ hv => ?_
  refine .get_bind (.get_bind ?_)
  dsimp only
  split
  · exact .pure hv
  · refine .get_bind ?_
    split
    · exact .lift (Build.Makes.conversion _ (hg₁.contains_unqualified (hgrow.contains ht)) hv)
    · exact .throw _

theorem convertToBool (hg : g.WellFormed) {e : ExprHandle} (he : g.contains e = true) :
    Makes g (Build.convertToBool e) := by
  refine .get_bind ?_
  split
  · exact .lift (Build.Makes.deferConversion he hg.contains_bool)
  · exact convert hg he hg.contains_bool

end Attempt.Makes

namespace Build.Yields

theorem intTypeOf (signed : Bool) (precision : UInt16) :
    Yields g (Build.intTypeOf signed precision) fun t g' =>
      g'.contains t = true ∧ g'.type t = .int signed precision :=
  .type (f := .int signed precision) trivial

theorem intType : Yields g Build.intType fun t g' =>
    g'.contains t = true ∧ g'.type t = .int true g.intPrecision :=
  intTypeOf true g.intPrecision

/-- The type that is found, if one is found, is an integer type or `float`. -/
theorem promote? (hg : g.WellFormed) {t : TypeHandle} (ht : g.contains t = true) :
    Yields g (Build.promote? t) fun r g' => ∀ u, r = some u →
      g'.contains u = true ∧ ((g'.type u).isInt || (g'.type u).isFloat) = true := by
  refine .get_bind ?_
  cases hf : g.type t with
  | bool =>
    refine .bind hg intType fun u g₁ _ _ hu => .pure ?_
    rintro _ ⟨⟩
    exact ⟨hu.1, by rw [hu.2]; rfl⟩
  | int | float => exact .pure (by rintro _ ⟨⟩; exact ⟨ht, by rw [hf]; rfl⟩)
  | _ => exact .pure (by rintro _ ⟨⟩)

theorem commonType? (hg : g.WellFormed) {a b : TypeHandle} (ha : g.contains a = true)
    (hb : g.contains b = true) :
    Yields g (Build.commonType? a b) fun r g' => ∀ u, r = some u →
      g'.contains u = true ∧ ((g'.type u).isInt || (g'.type u).isFloat) = true := by
  refine .bind hg (promote? hg ha) fun r g₁ hgrow₁ hg₁ hr => ?_
  split
  · refine .bind hg₁ (promote? hg₁ (hgrow₁.contains hb)) fun r' g₂ _ hg₂ hr' => ?_
    have hfloat : g₂.type .float = .float := congrArg (Option.getD · default) hg₂.float
    split
    · refine .get_bind (.get_bind ?_)
      split
      · exact .pure (by rintro _ ⟨⟩; exact ⟨hg₂.contains_float, by rw [hfloat]; rfl⟩)
      · exact .pure (by rintro _ ⟨⟩; exact ⟨hg₂.contains_float, by rw [hfloat]; rfl⟩)
      · refine .bind hg₂ (intTypeOf _ _) fun u g₃ _ _ hu => .pure ?_
        rintro _ ⟨⟩
        exact ⟨hu.1, by rw [hu.2]; rfl⟩
      · exact .pure (by rintro _ ⟨⟩)
    · exact .pure (by rintro _ ⟨⟩)
  · exact .pure (by rintro _ ⟨⟩)

theorem eitherDependent (lhs rhs : ExprHandle) :
    Yields g (Build.eitherDependent lhs rhs) fun _ _ => True :=
  .get_bind (.pure trivial)

end Build.Yields

/-! ## Operators -/

namespace Attempt.Makes

theorem logical (hg : g.WellFormed) (op : BinaryOp) {lhs rhs : ExprHandle}
    (hl : g.contains lhs = true) (hr : g.contains rhs = true) :
    Makes g (Build.logical op lhs rhs) := by
  refine .bind hg (convertToBool hg hl) fun l g₁ hgrow₁ hg₁ hl₁ => ?_
  refine .bind hg₁ (convertToBool hg₁ (hgrow₁.contains hr)) fun r g₂ hgrow₂ hg₂ hr₂ => ?_
  exact .lift (Build.Makes.binary op hg₂.contains_bool (hgrow₂.contains hl₁) hr₂)

theorem logicalNot (hg : g.WellFormed) {x : ExprHandle} (hx : g.contains x = true) :
    Makes g (Build.logicalNot x) :=
  .bind hg (convertToBool hg hx) fun _ _ _ hg₁ hx₁ =>
    .lift (Build.Makes.negation hg₁.contains_bool hx₁)

theorem convertBoth (hg : g.WellFormed) {lhs rhs : ExprHandle} {t : TypeHandle}
    (hl : g.contains lhs = true) (hr : g.contains rhs = true) (ht : g.contains t = true) :
    Yields g (Build.convertBoth lhs rhs t) fun p g' =>
      g'.contains p.1 = true ∧ g'.contains p.2 = true := by
  refine .bind hg (convert hg hl ht) fun l g₁ hgrow₁ hg₁ hl₁ => ?_
  have hr₁ := hgrow₁.contains hr
  refine .bind hg₁ (convert hg₁ hr₁ (hgrow₁.contains ht)) fun r g₂ hgrow₂ _ hr₂ => ?_
  exact .pure ⟨hgrow₂.contains hl₁, hr₂⟩

/-- The operands by value, and whether one of them is dependent, in a graph that has both. -/
theorem values {β : Type} (hg : g.WellFormed) {lhs rhs : ExprHandle}
    (hl : g.contains lhs = true) (hr : g.contains rhs = true)
    {f : ExprHandle → ExprHandle → Bool → Attempt SemanticError β} {Q : β → Graph → Prop}
    (hf : ∀ l r dependent g', g'.WellFormed → g'.contains l = true → g'.contains r = true →
      Yields g' (f l r dependent) Q) :
    Yields g (do
      let l ← Build.valueOf lhs
      let r ← Build.valueOf rhs
      let dependent ← Build.eitherDependent l r
      f l r dependent) Q := by
  refine .bind hg (.lift (Build.Makes.valueOf hg hl)) fun l g₁ hgrow₁ hg₁ hl₁ => ?_
  have hr₁ := hgrow₁.contains hr
  refine .bind hg₁ (.lift (Build.Makes.valueOf hg₁ hr₁)) fun r g₂ hgrow₂ hg₂ hr₂ => ?_
  have hl₂ := hgrow₂.contains hl₁
  refine .bind hg₂ (.lift (.eitherDependent l r)) fun dependent g₃ hgrow₃ hg₃ _ => ?_
  exact hf l r dependent g₃ hg₃ (hgrow₃.contains hl₂) (hgrow₃.contains hr₂)

/-- The operands converted to the common type of their types, if there is one. -/
theorem common {β : Type} (hg : g.WellFormed) {lhs rhs : ExprHandle}
    (hl : g.contains lhs = true) (hr : g.contains rhs = true)
    {f : TypeHandle → ExprHandle × ExprHandle → Attempt SemanticError β}
    {k : Attempt SemanticError β} {Q : β → Graph → Prop}
    (hf : ∀ t p g', g'.WellFormed → g'.contains t = true → g'.contains p.1 = true →
      g'.contains p.2 = true → Yields g' (f t p) Q)
    (hk : ∀ g', g'.WellFormed → g'.contains lhs = true → g'.contains rhs = true →
      Yields g' k Q) :
    Yields g (do
      match ← Build.commonType? (g.exprType lhs) (g.exprType rhs) with
      | some t => do
        let p ← Build.convertBoth lhs rhs t
        f t p
      | none => k) Q := by
  refine .bind hg (.lift (.commonType? hg (hg.contains_exprType hl) (hg.contains_exprType hr)))
    fun t g₁ hgrow₁ hg₁ ht => ?_
  have hl₁ := hgrow₁.contains hl
  have hr₁ := hgrow₁.contains hr
  cases t with
  | some t =>
    have ht₁ := (ht t rfl).1
    refine .bind hg₁ (convertBoth hg₁ hl₁ hr₁ ht₁) fun p g₂ hgrow₂ hg₂ hp => ?_
    exact hf t p g₂ hg₂ (hgrow₂.contains ht₁) hp.1 hp.2
  | none => exact hk g₁ hg₁ hl₁ hr₁

theorem comparison (hg : g.WellFormed) (op : BinaryOp) {lhs rhs : ExprHandle}
    (hl : g.contains lhs = true) (hr : g.contains rhs = true) :
    Makes g (Build.comparison op lhs rhs) := by
  have hbinary : ∀ {g' : Graph} {l r : ExprHandle}, g'.WellFormed → g'.contains l = true →
      g'.contains r = true →
        Makes g' (liftM (Build.binary op .bool l r) : Attempt SemanticError ExprHandle) :=
    fun hg' hl' hr' => .lift (Build.Makes.binary op hg'.contains_bool hl' hr')
  rw [Build.comparison]
  split
  · exact .throw_bind _
  · refine values hg hl hr fun l r dependent g₁ hg₁ hl₁ hr₁ => ?_
    split
    · exact hbinary hg₁ hl₁ hr₁
    · refine .get_bind (.get_bind (common hg₁ hl₁ hr₁ ?_ ?_))
      · exact fun _ p g₂ hg₂ _ hl₂ hr₂ => hbinary hg₂ hl₂ hr₂
      · intro g₂ hg₂ hl₂ hr₂
        split
        · exact hbinary hg₂ hl₂ hr₂
        · exact .throw _

theorem arithmetic (hg : g.WellFormed) (op : BinaryOp) {lhs rhs : ExprHandle}
    (hl : g.contains lhs = true) (hr : g.contains rhs = true) :
    Makes g (Build.arithmetic op lhs rhs) := by
  rw [Build.arithmetic]
  split
  · exact .throw_bind _
  · refine values hg hl hr fun l r dependent g₁ hg₁ hl₁ hr₁ => ?_
    split
    · refine .bind hg₁ (.lift Build.Makes.autoType) fun t g₂ hgrow₂ _ ht => ?_
      exact .lift (Build.Makes.binary op ht (hgrow₂.contains hl₁) (hgrow₂.contains hr₁))
    · refine .get_bind (.get_bind (common hg₁ hl₁ hr₁ ?_ fun _ _ _ _ => .throw _))
      exact fun t p g₂ _ ht hl₂ hr₂ => .lift (Build.Makes.binary op ht hl₂ hr₂)

end Attempt.Makes

/-! ## Initialization -/

/-- The expressions of an initializer as it was written. -/
def InitSyntax.exprs : InitSyntax → List ExprHandle
  | equal e => [e]
  | paren es | brace es => es

namespace Attempt.Makes

theorem init {f : InitForm} {t : TypeHandle} (ht : g.contains t = true) (hf : f.Fits g) :
    Makes g (liftM (Build.init f t) : Attempt SemanticError InitHandle) :=
  .lift (Build.Yields.init ⟨ht, hf⟩)

theorem initZero (hg : g.WellFormed) {t : TypeHandle} (ht : g.contains t = true) :
    Makes g (Build.initZero t) := by
  refine .get_bind ?_
  split
  · exact .throw_bind _
  · refine .get_bind ?_
    split
    · exact init ht trivial
    · refine .get_bind ?_
      split
      · exact .throw_bind _
      · refine .get_bind (.get_bind ?_)
        dsimp only
        split
        · refine .get_bind ?_
          split
          · refine .bind hg (.lift (Build.Makes.boolLiteral hg false)) fun zero _ hgrow _ hz => ?_
            exact init (hgrow.contains ht) hz
          · refine .bind hg (.lift (Build.Makes.integerLiteral 0 (hg.contains_unqualified ht)))
              fun zero _ hgrow _ hz => ?_
            exact init (hgrow.contains ht) hz
        · exact .throw _

theorem initDefault {t : TypeHandle} (ht : g.contains t = true) :
    Makes g (Build.initDefault t) := by
  refine .get_bind ?_
  split
  · exact .throw_bind _
  · exact init ht trivial

theorem initValue (hg : g.WellFormed) {t : TypeHandle} (ht : g.contains t = true) :
    Makes g (Build.initValue t) := by
  refine .get_bind ?_
  split
  · exact .throw_bind _
  · refine .get_bind ?_
    split
    · exact .throw_bind _
    · exact initZero hg ht

theorem initReference {t : TypeHandle} {e : ExprHandle} (ht : g.contains t = true)
    (he : g.contains e = true) : Makes g (Build.initReference t e) := by
  refine .get_bind ?_
  split
  · exact .throw_bind _
  · refine .get_bind (.get_bind (.get_bind (.get_bind (.get_bind ?_))))
    split
    · exact init ht he
    · exact .throw _

theorem copyDeferred (hg : g.WellFormed) {t : TypeHandle} {e : ExprHandle}
    (ht : g.contains t = true) (he : g.contains e = true) :
    Build.Makes g (Build.copyDeferred t e) :=
  .bind hg (Build.Makes.deferConversion he ht) fun _ _ hgrow _ hx =>
    Build.Yields.init ⟨hgrow.contains ht, hx⟩

theorem convertAndCopy (hg : g.WellFormed) {t : TypeHandle} {e : ExprHandle}
    (ht : g.contains t = true) (he : g.contains e = true) :
    Makes g (Build.convertAndCopy t e) := by
  refine .get_bind (.get_bind (.get_bind ?_))
  split
  · exact .lift (copyDeferred hg ht he)
  · refine .get_bind ?_
    split
    · exact .throw _
    · exact .bind hg (convert hg he ht) fun _ _ hgrow _ hx => init (hgrow.contains ht) hx

theorem initCopy (hg : g.WellFormed) {t : TypeHandle} {e : ExprHandle}
    (ht : g.contains t = true) (he : g.contains e = true) : Makes g (Build.initCopy t e) := by
  refine .get_bind ?_
  split
  · exact initReference ht he
  · refine .get_bind ?_
    split
    · exact .lift (copyDeferred hg ht he)
    · refine .get_bind ?_
      split
      · exact .throw _
      · refine .get_bind ?_
        split
        · exact .throw _
        · exact convertAndCopy hg ht he

theorem initDirect (hg : g.WellFormed) {t : TypeHandle} {es : List ExprHandle}
    (ht : g.contains t = true) (hes : ∀ e ∈ es, g.contains e = true) :
    Makes g (Build.initDirect t es) := by
  cases es with
  | nil =>
    refine .get_bind ?_
    dsimp only
    split
    · exact .throw_bind _
    · exact initValue hg ht
  | cons e rest =>
    have he := hes e List.mem_cons_self
    refine .get_bind ?_
    dsimp only
    split
    · exact .throw_bind _
    · refine .get_bind ?_
      split
      · exact .throw _
      · refine .get_bind ?_
        split
        · exact initReference ht he
        · refine .get_bind ?_
          split
          · exact .lift (copyDeferred hg ht he)
          · refine .get_bind ?_
            split
            · exact .throw _
            · exact convertAndCopy hg ht he

theorem initFrom (hg : g.WellFormed) {t : TypeHandle} {i : InitSyntax}
    (ht : g.contains t = true) (hi : ∀ e ∈ i.exprs, g.contains e = true) :
    Makes g (Build.initFrom t i) := by
  cases i with
  | equal e => exact initCopy hg ht (hi e List.mem_cons_self)
  | paren es => exact initDirect hg ht hi
  | brace es => exact .throw _

end Attempt.Makes
end SemanticCore
