import SemanticCore.Action.Declaration
import SemanticCore.Expr.Operator
import SemanticCore.Proofs.Expr.Typing
import SemanticCore.Proofs.Graph.Quiet
import SemanticCore.Proofs.Graph.Resolution

/-!
# Resolution adds well-typed expressions

`Build.Types free g x Q` says that the computation `x`, started on the graph `g`, adds only
expressions that are well typed, and that its result satisfies `Q`; `Attempt.Types` says the same of
a computation that may fail.  A computation that adds no expression has the property as soon as it
only adds to the graph (`Build.Types.of_quiet`), so there is something to show where an expression
is built: its typing rule has to be found (`Build.Types.expr`).

Conversions, operators and initializers are resolved in several steps, and what the rule asks for
was established by an earlier step.  So the lemmas say which type the result of a step has.
-/

set_option autoImplicit false
namespace SemanticCore

open SemanticCore.Graph

variable {α β ε ε' : Type} {free : Prop} {g : Graph}

/-- The computation adds only well-typed expressions, and its result satisfies `Q`. -/
def Build.Types (free : Prop) (g : Graph) (x : Build α) (Q : α → Graph → Prop) : Prop :=
  g.GrowsTyped free (x g).2 ∧ Q (x g).1 (x g).2

/-- The computation adds only well-typed expressions, and if it succeeds its result satisfies
`Q`. -/
def Attempt.Types (free : Prop) (g : Graph) (x : Attempt ε α) (Q : α → Graph → Prop) : Prop :=
  Build.Types free g x fun r g' => ∀ a, r = .ok a → Q a g'

/-! ## Steps -/

namespace Build.Types

variable {x : Build α} {f : α → Build β} {P : α → Graph → Prop} {Q : β → Graph → Prop}

/-- A computation that adds no expression adds none that is ill typed. -/
theorem of_quiet (hx : Build.Yields g x P) (hq : x.Quiet) : Types free g x P :=
  ⟨.of_exprs hx.1 (hq g), hx.2⟩

theorem pure {b : β} (h : Q b g) : Types free g (Pure.pure b : Build β) Q := ⟨.refl g, h⟩

theorem bind (hg : g.WellFormed) (hx : Types free g x P)
    (hf : ∀ a g', g.Grows g' → g'.WellFormed → P a g' → Types free g' (f a) Q) :
    Types free g (x >>= f) Q := by
  have h := hf (x g).1 (x g).2 hx.1.grows (hx.1.grows.wellFormed hg) hx.2
  exact ⟨hx.1.trans hg h.1, h.2⟩

theorem get_bind {f : Graph → Build β} (h : Types free g (f g) Q) :
    Types free g ((get : Build Graph) >>= f) Q := h

theorem mono {P' : α → Graph → Prop} (hx : Types free g x P) (h : ∀ a g', P a g' → P' a g') :
    Types free g x P' :=
  ⟨hx.1, h _ _ hx.2⟩

/-- **An expression is added by a typing rule.** -/
theorem expr {f : ExprForm} {t : TypeHandle} (hg : g.WellFormed) (hf : Expr.Fits g ⟨f, t⟩)
    (ht : Typing free g f t) :
    Types free g (Build.expr f t) fun e g' => g'.contains e = true ∧ g'.exprType e = t := by
  obtain ⟨hgrow, hc, hget⟩ := Build.Yields.expr hf
  refine ⟨⟨hgrow, fun e he => ?_⟩, hc, congrArg Expr.type hget⟩
  have hsize : e.index < g.exprs.size + 1 := by
    rw [contains_iff] at he
    exact Nat.lt_of_lt_of_eq he (Array.size_push _)
  rcases contains_or_eq_of_size hsize with hold | hnew
  · exact .inl (contains_iff.2 hold)
  · have hget' : (Build.expr f t g).2.expr e = ⟨f, t⟩ := hnew ▸ hget
    rw [hget']
    exact .inr (ht.extend hg hgrow.extends hf)

end Build.Types

namespace Attempt.Types

variable {x : Attempt ε α} {f : α → Attempt ε β} {P : α → Graph → Prop} {Q : β → Graph → Prop}

theorem of_quiet (hx : Attempt.Yields g x P) (hq : x.Quiet) : Types free g x P :=
  Build.Types.of_quiet hx hq

theorem pure {b : β} (h : Q b g) : Types free g (Pure.pure b : Attempt ε β) Q :=
  ⟨.refl g, by rintro _ ⟨⟩; exact h⟩

theorem throw (e : ε) : Types free g (MonadExcept.throw e : Attempt ε β) Q :=
  ⟨.refl g, by rintro _ ⟨⟩⟩

theorem bind (hg : g.WellFormed) (hx : Types free g x P)
    (hf : ∀ a g', g.Grows g' → g'.WellFormed → P a g' → Types free g' (f a) Q) :
    Types free g (x >>= f) Q := by
  obtain ⟨hgrow, hres⟩ := hx
  rw [Types, Build.Types]
  rcases hxg : x g with ⟨e | a, g'⟩
  · rw [hxg] at hgrow
    rw [bind_of_error hxg]
    exact ⟨hgrow, by rintro _ ⟨⟩⟩
  · rw [hxg] at hgrow hres
    rw [bind_of_ok hxg]
    have h := hf a g' hgrow.grows (hgrow.grows.wellFormed hg) (hres a rfl)
    exact ⟨hgrow.trans hg h.1, h.2⟩

theorem lift {x : Build β} (hx : Build.Types free g x Q) :
    Types free g (liftM x : Attempt ε β) Q :=
  ⟨hx.1, by rintro _ ⟨⟩; exact hx.2⟩

theorem get_bind {f : Graph → Attempt ε β} (h : Types free g (f g) Q) :
    Types free g ((get : Attempt ε Graph) >>= f) Q := h

theorem throw_bind (e : ε) : Types free g ((MonadExcept.throw e : Attempt ε α) >>= f) Q :=
  ⟨.refl g, by rintro _ ⟨⟩⟩

theorem adapt {k : ε → ε'} (hx : Types free g x P) :
    Types free g (x.adapt k : Attempt ε' α) P :=
  ⟨hx.1, (Attempt.Yields.adapt (k := k) ⟨hx.1.grows, hx.2⟩).2⟩

theorem mono {P' : α → Graph → Prop} (hx : Types free g x P) (h : ∀ a g', P a g' → P' a g') :
    Types free g x P' :=
  ⟨hx.1, fun a ha => h a _ (hx.2 a ha)⟩

/-- A constructor that is guarded by a check. -/
theorem guarded {b : Bool} {x : Attempt ε α} (e : ε) (hx : b = true → Types free g x P) :
    Types free g (if b = true then x else MonadExcept.throw e) P := by
  split
  · next hb => exact hx hb
  · exact .throw e

end Attempt.Types

/-! ## Literals and names -/

/-- The computation adds well-typed expressions only, and returns an expression of the graph. -/
abbrev Build.TypesExpr (free : Prop) (g : Graph) (x : Build ExprHandle) : Prop :=
  Build.Types free g x fun e g' => g'.contains e = true

/-- The computation adds well-typed expressions only, and if it succeeds it returns an expression
of the graph. -/
abbrev Attempt.TypesExpr (free : Prop) (g : Graph) (x : Attempt ε ExprHandle) : Prop :=
  Attempt.Types free g x fun e g' => g'.contains e = true

/-- What is added by a typing rule is an expression of the graph. -/
theorem Build.TypesExpr.of_typing {f : ExprForm} {t : TypeHandle} (hg : g.WellFormed)
    (hf : Expr.Fits g ⟨f, t⟩) (ht : Typing free g f t) : Build.TypesExpr free g (Build.expr f t) :=
  (Build.Types.expr hg hf ht).mono fun _ _ h => h.1

theorem Attempt.TypesExpr.of_typing {f : ExprForm} {t : TypeHandle} (hg : g.WellFormed)
    (hf : Expr.Fits g ⟨f, t⟩) (ht : Typing free g f t) :
    Attempt.TypesExpr free g (liftM (Build.expr f t) : Attempt ε ExprHandle) :=
  .lift (Build.TypesExpr.of_typing hg hf ht)

namespace Build.Types

theorem boolLiteral (hg : g.WellFormed) (value : Bool) :
    TypesExpr free g (Build.boolLiteral value) :=
  TypesExpr.of_typing hg ⟨hg.contains_bool, rfl⟩ (.boolean value)

theorem integerLiteral (hg : g.WellFormed) {t : TypeHandle} (value : Int)
    (ht : g.contains t = true) : TypesExpr free g (Build.integerLiteral t value) :=
  TypesExpr.of_typing hg ⟨ht, trivial⟩ (.integer value t)

theorem intLiteral (hg : g.WellFormed) (value : Int) : TypesExpr free g (Build.intLiteral value) :=
  .bind hg (.of_quiet Build.Makes.intType .intType) fun _ _ _ hg₁ ht => integerLiteral hg₁ value ht

theorem uintLiteral (hg : g.WellFormed) (value : Int) :
    TypesExpr free g (Build.uintLiteral value) :=
  .bind hg (.of_quiet Build.Makes.uintType .uintType) fun _ _ _ hg₁ ht =>
    integerLiteral hg₁ value ht

theorem requiresExpr (hg : g.WellFormed) {tparams params : List DeclHandle} {reqs : List ReqHandle}
    (ht : ∀ d ∈ tparams, g.contains d = true) (hp : ∀ d ∈ params, g.contains d = true)
    (hr : ∀ r ∈ reqs, g.contains r = true) :
    TypesExpr free g (Build.requiresExpr tparams params reqs) :=
  TypesExpr.of_typing hg ⟨hg.contains_bool, rfl, ht, hp, hr⟩ (.requires tparams params reqs)

end Build.Types

namespace Attempt.Types

theorem referenceTo (hg : g.WellFormed) (d : DeclHandle) :
    TypesExpr free g (Build.referenceTo d) := by
  refine .get_bind ?_
  cases hd : g.declaredType? d with
  | none => exact .throw _
  | some t =>
    have ht := hg.contains_declaredType? hd
    refine .bind hg (.lift (.of_quiet (Build.Yields.type (f := .reference t) ht) (.type _)))
      fun r g₁ hgrow hg₁ hr => ?_
    have hd₁ := (hgrow.extends.declaredType? (contains_of_declaredType? hd)).trans hd
    exact TypesExpr.of_typing hg₁ ⟨hr.1, t, hd₁, hr.2⟩ (.reference hd₁ hr.2)

theorem templateReference (hg : g.WellFormed) (d : DeclHandle) :
    TypesExpr free g (Build.templateReference d) := by
  refine .get_bind (guarded _ fun hd => ?_)
  refine .bind hg (.lift (.of_quiet Build.Yields.autoType .autoType))
    fun t g₁ hgrow hg₁ hauto => ?_
  obtain ⟨ht, n, hn⟩ := hauto
  have hd₁ := (hgrow.extends.isTemplateDecl (contains_of_isTemplateDecl hd)).trans hd
  exact TypesExpr.of_typing hg₁ ⟨ht, hd₁, n, hn⟩ (.templateRef hd₁ hn)

theorem conceptCheck (hg : g.WellFormed) {d : DeclHandle} {args : List Term}
    (ha : ∀ a ∈ args, a.Fits g) : TypesExpr free g (Build.conceptCheck d args) :=
  .get_bind (guarded _ fun hd =>
    TypesExpr.of_typing hg ⟨hg.contains_bool, hd, rfl, ha⟩ (.check args hd))

theorem synthesizedValue (hg : g.WellFormed) (d : DeclHandle) :
    TypesExpr free g (Build.synthesizedValue d) := by
  refine .get_bind ?_
  cases hd : g.declaredType? d with
  | none => exact .throw _
  | some t =>
    exact TypesExpr.of_typing hg ⟨hg.contains_declaredType? hd, hd⟩ (.synthetic hd)

end Attempt.Types

/-! ## Conversions -/

/-- The type `bool` has no qualifiers to be taken away. -/
theorem Graph.WellFormed.unqualified_bool (hg : g.WellFormed) : g.unqualified .bool = .bool := by
  have hbool : g.type .bool = .bool := congrArg (Option.getD · default) hg.bool
  rw [unqualified, hbool]

namespace Build.Types

theorem deferConversion (hg : g.WellFormed) {e : ExprHandle} {t : TypeHandle}
    (he : g.contains e = true) (ht : g.contains t = true) :
    Types free g (Build.deferConversion e t) fun x g' =>
      g'.contains x = true ∧ g'.exprType x = t :=
  expr (f := .conversion .dependent e) hg ⟨ht, he⟩ (.deferredConversion e t)

theorem valueOf (hg : g.WellFormed) {e : ExprHandle} (he : g.contains e = true) :
    TypesExpr free g (Build.valueOf e) := by
  refine .get_bind (.get_bind ?_)
  split
  · next hr =>
    have ht := hg.contains_valueType (hg.contains_exprType he)
    exact .get_bind (TypesExpr.of_typing hg ⟨ht, he⟩ (.value hr))
  · exact .pure he

end Build.Types

namespace Attempt.Types

/-- A converted expression has the type that it was converted to. -/
theorem convert (hg : g.WellFormed) {e : ExprHandle} {t : TypeHandle} (he : g.contains e = true)
    (ht : g.contains t = true) :
    Types free g (Build.convert e t) fun x g' =>
      g'.contains x = true ∧ g'.exprType x = g.unqualified t := by
  refine .bind hg (.lift (.valueOf hg he)) fun v g₁ hgrow hg₁ hv => ?_
  have htarget : g₁.unqualified t = g.unqualified t := by
    rw [unqualified, unqualified, hgrow.extends.type ht]
  refine .get_bind (.get_bind ?_)
  dsimp only
  rw [htarget]
  split
  · next heq => exact .pure ⟨hv, heq⟩
  · refine .get_bind ?_
    split
    · next kind hkind =>
      have hcontains := hgrow.contains (hg.contains_unqualified ht)
      exact .lift (.expr (f := .conversion kind v) hg₁ ⟨hcontains, hv⟩ (.conversion hkind))
    · exact .throw _

theorem convertToBool (hg : g.WellFormed) {e : ExprHandle} (he : g.contains e = true) :
    Types free g (Build.convertToBool e) fun x g' =>
      g'.contains x = true ∧ g'.exprType x = .bool := by
  refine .get_bind ?_
  split
  · exact .lift (.deferConversion hg he hg.contains_bool)
  · have h : Types free g (Build.convert e .bool) _ := convert hg he hg.contains_bool
    rwa [hg.unqualified_bool] at h

/-! ## Operators -/

theorem logical (hg : g.WellFormed) {op : BinaryOp} (hop : op.isLogical = true)
    {l r : ExprHandle} (hl : g.contains l = true) (hr : g.contains r = true) :
    TypesExpr free g (Build.logical op l r) := by
  refine .bind hg (convertToBool hg hl) fun l' g₁ hgrow₁ hg₁ hl' => ?_
  obtain ⟨hl₁, htl⟩ := hl'
  refine .bind hg₁ (convertToBool hg₁ (hgrow₁.contains hr)) fun r' g₂ hgrow₂ hg₂ hr' => ?_
  obtain ⟨hr₂, htr⟩ := hr'
  have htl₂ := (hgrow₂.extends.exprType hl₁).trans htl
  exact TypesExpr.of_typing hg₂ ⟨hg₂.contains_bool, hgrow₂.contains hl₁, hr₂⟩
    (.logical hop htl₂ htr)

theorem logicalNot (hg : g.WellFormed) {e : ExprHandle} (he : g.contains e = true) :
    TypesExpr free g (Build.logicalNot e) := by
  refine .bind hg (convertToBool hg he) fun x _ _ hg₁ hx => ?_
  obtain ⟨hx₁, ht⟩ := hx
  exact TypesExpr.of_typing hg₁ ⟨hg₁.contains_bool, hx₁⟩ (.not ht)

theorem convertBoth (hg : g.WellFormed) {l r : ExprHandle} {t : TypeHandle}
    (hl : g.contains l = true) (hr : g.contains r = true) (ht : g.contains t = true) :
    Types free g (Build.convertBoth l r t) fun p g' =>
      (g'.contains p.1 = true ∧ g'.contains p.2 = true) ∧
        g'.exprType p.1 = g.unqualified t ∧ g'.exprType p.2 = g.unqualified t := by
  refine .bind hg (convert hg hl ht) fun l' g₁ hgrow₁ hg₁ hl' => ?_
  obtain ⟨hl₁, htl⟩ := hl'
  refine .bind hg₁ (convert hg₁ (hgrow₁.contains hr) (hgrow₁.contains ht))
    fun r' g₂ hgrow₂ _ hr' => ?_
  obtain ⟨hr₂, htr⟩ := hr'
  have htarget : g₁.unqualified t = g.unqualified t := by
    rw [unqualified, unqualified, hgrow₁.extends.type ht]
  refine .pure ⟨⟨hgrow₂.contains hl₁, hr₂⟩, ?_, htr.trans htarget⟩
  exact (hgrow₂.extends.exprType hl₁).trans htl

/-- The operands by value, and whether one of them is dependent. -/
theorem values (hg : g.WellFormed) {lhs rhs : ExprHandle} (hl : g.contains lhs = true)
    (hr : g.contains rhs = true) {f : ExprHandle → ExprHandle → Bool → Attempt SemanticError β}
    {Q : β → Graph → Prop}
    (hf : ∀ l r g', g'.WellFormed → g'.contains l = true → g'.contains r = true →
      Types free g' (f l r (g'.isTypeDependent l || g'.isTypeDependent r)) Q) :
    Types free g (do
      let l ← Build.valueOf lhs
      let r ← Build.valueOf rhs
      let dependent ← Build.eitherDependent l r
      f l r dependent) Q := by
  refine .bind hg (.lift (.valueOf hg hl)) fun l g₁ hgrow₁ hg₁ hl₁ => ?_
  refine .bind hg₁ (.lift (.valueOf hg₁ (hgrow₁.contains hr))) fun r g₂ hgrow₂ hg₂ hr₂ => ?_
  exact hf l r g₂ hg₂ (hgrow₂.contains hl₁) hr₂

/-- The operands converted to the common type of their types, if there is one. -/
theorem common (hg : g.WellFormed) {lhs rhs : ExprHandle} (hl : g.contains lhs = true)
    (hr : g.contains rhs = true)
    {f : TypeHandle → ExprHandle × ExprHandle → Attempt SemanticError β}
    {k : Attempt SemanticError β} {Q : β → Graph → Prop}
    (hf : ∀ t p g', g'.WellFormed → g'.contains t = true →
      ((g'.type t).isInt || (g'.type t).isFloat) = true →
      (g'.contains p.1 = true ∧ g'.contains p.2 = true) →
      g'.exprType p.1 = t → g'.exprType p.2 = t → Types free g' (f t p) Q)
    (hk : ∀ g', g.Grows g' → g'.WellFormed → Types free g' k Q) :
    Types free g (do
      match ← Build.commonType? (g.exprType lhs) (g.exprType rhs) with
      | some t => do
        let p ← Build.convertBoth lhs rhs t
        f t p
      | none => k) Q := by
  have hcommon := Build.Yields.commonType? hg (hg.contains_exprType hl) (hg.contains_exprType hr)
  refine .bind hg (.lift (.of_quiet hcommon (.commonType? _ _))) fun t g₁ hgrow₁ hg₁ ht => ?_
  cases t with
  | some t =>
    obtain ⟨htc, hform⟩ := ht t rfl
    have hplain : g₁.unqualified t = t := by
      rw [unqualified]
      split
      · next h => rw [h] at hform; cases hform
      · rfl
    refine .bind hg₁ (convertBoth hg₁ (hgrow₁.contains hl) (hgrow₁.contains hr) htc)
      fun p g₂ hgrow₂ hg₂ hconverted => ?_
    obtain ⟨hp, hpl, hpr⟩ := hconverted
    rw [hplain] at hpl hpr
    exact hf t p g₂ hg₂ (hgrow₂.contains htc) (by rwa [hgrow₂.extends.type htc]) hp hpl hpr
  | none => exact hk g₁ hgrow₁ hg₁

theorem comparison (hg : g.WellFormed) (op : BinaryOp) {lhs rhs : ExprHandle}
    (hl : g.contains lhs = true) (hr : g.contains rhs = true) :
    TypesExpr free g (Build.comparison op lhs rhs) := by
  rw [Build.comparison]
  split
  · exact .throw_bind _
  · next hop =>
    rw [Bool.not_eq_true', Bool.not_eq_false] at hop
    refine values hg hl hr fun l r g₁ hg₁ hl₁ hr₁ => ?_
    split
    · next hdep =>
      exact TypesExpr.of_typing hg₁ ⟨hg₁.contains_bool, hl₁, hr₁⟩ (.deferredComparison hop hdep)
    · refine .get_bind (.get_bind (common hg₁ hl₁ hr₁ ?_ fun g₂ hgrow hg₂ => ?_))
      · intro t p g₂ hg₂ _ _ hp hpl hpr
        exact TypesExpr.of_typing hg₂ ⟨hg₂.contains_bool, hp⟩
          (.comparison hop (hpl.trans hpr.symm))
      · split
        · next heq =>
          rw [← hgrow.extends.exprType hl₁, ← hgrow.extends.exprType hr₁] at heq
          exact TypesExpr.of_typing hg₂
            ⟨hg₂.contains_bool, hgrow.contains hl₁, hgrow.contains hr₁⟩ (.comparison hop heq)
        · exact .throw _

theorem arithmetic (hg : g.WellFormed) (op : BinaryOp) {lhs rhs : ExprHandle}
    (hl : g.contains lhs = true) (hr : g.contains rhs = true) :
    TypesExpr free g (Build.arithmetic op lhs rhs) := by
  rw [Build.arithmetic]
  split
  · exact .throw_bind _
  · next hop =>
    rw [Bool.not_eq_true', Bool.not_eq_false] at hop
    refine values hg hl hr fun l r g₁ hg₁ hl₁ hr₁ => ?_
    split
    · next hdep =>
      refine .bind hg₁ (.lift (.of_quiet Build.Yields.autoType .autoType))
        fun t g₂ hgrow hg₂ hauto => ?_
      obtain ⟨ht, n, hn⟩ := hauto
      have hdep₂ : (g₂.isTypeDependent l || g₂.isTypeDependent r) = true := by
        rwa [hg₁.isTypeDependent_extend hgrow.extends hl₁,
          hg₁.isTypeDependent_extend hgrow.extends hr₁]
      exact TypesExpr.of_typing hg₂ ⟨ht, hgrow.contains hl₁, hgrow.contains hr₁⟩
        (.deferredArithmetic hop hdep₂ hn)
    · refine .get_bind (.get_bind (common hg₁ hl₁ hr₁ ?_ fun _ _ _ => .throw _))
      intro t p g₂ hg₂ ht hform hp hpl hpr
      exact TypesExpr.of_typing hg₂ ⟨ht, hp⟩ (.arithmetic hop hform hpl hpr)

end Attempt.Types

/-! ## Initialization -/

/-- The computation adds well-typed expressions only, and if it succeeds it returns an initializer
of the graph. -/
abbrev Attempt.TypesInit (free : Prop) (g : Graph) (x : Attempt ε InitHandle) : Prop :=
  Attempt.Types free g x fun i g' => g'.contains i = true

namespace Attempt.Types

theorem init {f : InitForm} {t : TypeHandle} (ht : g.contains t = true) (hf : f.Fits g) :
    TypesInit free g (liftM (Build.init f t) : Attempt SemanticError InitHandle) :=
  .lift (.of_quiet (.init ⟨ht, hf⟩) (.init f t))

theorem initDefault {t : TypeHandle} (ht : g.contains t = true) :
    TypesInit free g (Build.initDefault t) :=
  .of_quiet (Attempt.Makes.initDefault ht) (.initDefault t)

theorem initReference {t : TypeHandle} {e : ExprHandle} (ht : g.contains t = true)
    (he : g.contains e = true) : TypesInit free g (Build.initReference t e) :=
  .of_quiet (Attempt.Makes.initReference ht he) (.initReference t e)

theorem initZero (hg : g.WellFormed) {t : TypeHandle} (ht : g.contains t = true) :
    TypesInit free g (Build.initZero t) := by
  refine .get_bind ?_
  split
  · exact .throw_bind _
  · refine .get_bind ?_
    split
    · exact init ht trivial
    · refine .get_bind ?_
      split
      · exact .throw_bind _
      · refine .get_bind (.get_bind ?_)
        dsimp only
        split
        · refine .get_bind ?_
          split
          · refine .bind hg (.lift (.boolLiteral hg false)) fun zero _ hgrow _ hz => ?_
            exact init (hgrow.contains ht) hz
          · refine .bind hg (.lift (.integerLiteral hg 0 (hg.contains_unqualified ht)))
              fun zero _ hgrow _ hz => ?_
            exact init (hgrow.contains ht) hz
        · exact .throw _

theorem initValue (hg : g.WellFormed) {t : TypeHandle} (ht : g.contains t = true) :
    TypesInit free g (Build.initValue t) := by
  refine .get_bind ?_
  split
  · exact .throw_bind _
  · refine .get_bind ?_
    split
    · exact .throw_bind _
    · exact initZero hg ht

theorem copyDeferred (hg : g.WellFormed) {t : TypeHandle} {e : ExprHandle}
    (ht : g.contains t = true) (he : g.contains e = true) :
    TypesInit free g (liftM (Build.copyDeferred t e) : Attempt SemanticError InitHandle) :=
  .lift (.bind hg (.deferConversion hg he ht) fun _ _ hgrow _ hx =>
    .of_quiet (.init ⟨hgrow.contains ht, hx.1⟩) (.init _ _))

theorem convertAndCopy (hg : g.WellFormed) {t : TypeHandle} {e : ExprHandle}
    (ht : g.contains t = true) (he : g.contains e = true) :
    TypesInit free g (Build.convertAndCopy t e) := by
  refine .get_bind (.get_bind (.get_bind ?_))
  split
  · exact copyDeferred hg ht he
  · refine .get_bind ?_
    split
    · exact .throw _
    · exact .bind hg (convert hg he ht) fun _ _ hgrow _ hx => init (hgrow.contains ht) hx.1

theorem initCopy (hg : g.WellFormed) {t : TypeHandle} {e : ExprHandle}
    (ht : g.contains t = true) (he : g.contains e = true) :
    TypesInit free g (Build.initCopy t e) := by
  refine .get_bind ?_
  split
  · exact initReference ht he
  · refine .get_bind ?_
    split
    · exact copyDeferred hg ht he
    · refine .get_bind ?_
      split
      · exact .throw _
      · refine .get_bind ?_
        split
        · exact .throw _
        · exact convertAndCopy hg ht he

theorem initDirect (hg : g.WellFormed) {t : TypeHandle} {es : List ExprHandle}
    (ht : g.contains t = true) (hes : ∀ e ∈ es, g.contains e = true) :
    TypesInit free g (Build.initDirect t es) := by
  cases es with
  | nil =>
    refine .get_bind ?_
    dsimp only
    split
    · exact .throw_bind _
    · exact initValue hg ht
  | cons e rest =>
    have he := hes e List.mem_cons_self
    refine .get_bind ?_
    dsimp only
    split
    · exact .throw_bind _
    · refine .get_bind ?_
      split
      · exact .throw _
      · refine .get_bind ?_
        split
        · exact initReference ht he
        · refine .get_bind ?_
          split
          · exact copyDeferred hg ht he
          · refine .get_bind ?_
            split
            · exact .throw _
            · exact convertAndCopy hg ht he

theorem initFrom (hg : g.WellFormed) {t : TypeHandle} {i : InitSyntax}
    (ht : g.contains t = true) (hi : ∀ e ∈ i.exprs, g.contains e = true) :
    TypesInit free g (Build.initFrom t i) := by
  cases i with
  | equal e => exact initCopy hg ht (hi e List.mem_cons_self)
  | paren es => exact initDirect hg ht hi
  | brace es => exact .throw _

theorem initVariable (hg : g.WellFormed) (d : DeclHandle) {t : TypeHandle}
    {written : Option InitSyntax} (ht : g.contains t = true)
    (hw : ∀ i, written = some i → ∀ e ∈ i.exprs, g.contains e = true) :
    Types free g (Build.initVariable d t written) fun _ _ => True := by
  have hset : ∀ (i : InitHandle) (g' : Graph), g'.contains i = true →
      Types free g' ((Build.setInitializer d i).adapt .ofBuild : Attempt SemanticError Unit)
        fun _ _ => True :=
    fun i g' hi => .adapt (.of_quiet (.setInitializer d hi) (.setInitializer d i))
  cases written with
  | some written =>
    exact .bind hg (initFrom hg ht (hw written rfl)) fun i g' _ _ hi => hset i g' hi
  | none => exact .bind hg (initDefault ht) fun i g' _ _ hi => hset i g' hi

end Attempt.Types
end SemanticCore
