import SemanticCore.Proofs.Action.Reachable
import SemanticCore.Proofs.Expr.Erasure

/-!
# Comparing expressions

Two expressions are compared by comparing the expressions inside them, wherever in the graph those
stand: the arguments of a check, the operands of an operator, what the requirements of a
requires-expression are about.  `Graph.equivalent` asks of each of these that it comes before the
expression that it stands in, which is how the recursion ends.  In a graph that can be reached the
question is idle, so the comparison is the recursion without it, and that recursion ends.

* `Graph.WellFormed.acc_asks` — the comparisons that a comparison asks for come to an end.
* `Graph.WellFormed.equivalent_eq` — a comparison is made of those that it asks for.
* `Graph.comparedByErasure_of_reachable` — **comparing decides whether the erased expressions are
  equal**, and what it says is never taken back.
-/

set_option autoImplicit false
namespace SemanticCore

/-! ## What a comparison asks for -/

/-- Lists agree in the same way if their members do. -/
theorem isEqv_congr {α : Type} {same same' : α → α → Bool} {as bs : List α}
    (h : ∀ a ∈ as, ∀ b ∈ bs, same a b = same' a b) : as.isEqv bs same = as.isEqv bs same' := by
  induction as generalizing bs with
  | nil => cases bs <;> rfl
  | cons a as ih =>
    cases bs with
    | nil => rfl
    | cons b bs =>
      have htail := ih fun x hx y hy =>
        h x (List.mem_cons_of_mem _ hx) y (List.mem_cons_of_mem _ hy)
      rw [List.isEqv_cons_cons, List.isEqv_cons_cons, htail,
        h a List.mem_cons_self b List.mem_cons_self]

section Agree

variable {same same' : ExprHandle → ExprHandle → Bool}

theorem Term.agree_congr {a b : Term}
    (h : ∀ x y, a.expr? = some x → b.expr? = some y → same x y = same' x y) :
    a.agree same b = a.agree same' b := by
  cases a with
  | expr x =>
    cases b with
    | expr y => exact h x y rfl rfl
    | _ => rfl
  | _ => cases b <;> rfl

theorem ReqForm.agree_congr {a b : ReqForm}
    (h : ∀ x y, a.expr? = some x → b.expr? = some y → same x y = same' x y) :
    a.agree same b = a.agree same' b := by
  cases a with
  | basic x =>
    cases b with
    | basic y => exact h x y rfl rfl
    | _ => rfl
  | type s => cases b <;> rfl
  | conversion x s =>
    cases b with
    | conversion y t => exact congrArg (s == t && ·) (h x y rfl rfl)
    | _ => rfl

end Agree

namespace Graph

variable {g g' : Graph}

/-- Comparing the second pair of expressions asks for the first pair to be compared. -/
def Asks (g : Graph) (inner outer : ExprHandle × ExprHandle) : Prop :=
  inner.1 ∈ (g.expr outer.1).form.operands g ∧ inner.2 ∈ (g.expr outer.2).form.operands g

/-- Whether two expressions agree depends on the pairs that are asked for only. -/
theorem agree_congr {same same' : ExprHandle → ExprHandle → Bool} {a b : Expr}
    (h : ∀ x ∈ a.form.operands g, ∀ y ∈ b.form.operands g, same x y = same' x y) :
    g.agree same a b = g.agree same' a b := by
  obtain ⟨fa, ta⟩ := a
  obtain ⟨fb, tb⟩ := b
  have hsecond : ∀ {x y : ExprHandle}, y ∈ [x, y] := List.mem_cons_of_mem _ List.mem_cons_self
  cases fa with
  | check c xs =>
    cases fb with
    | check d ys =>
      refine congrArg (c == d && ·) (isEqv_congr fun x hx y hy => Term.agree_congr ?_)
      exact fun u v hu hv =>
        h u (List.mem_filterMap.2 ⟨x, hx, hu⟩) v (List.mem_filterMap.2 ⟨y, hy, hv⟩)
    | _ => rfl
  | binary o x x' =>
    cases fb with
    | binary p y y' =>
      have hl := h x List.mem_cons_self y List.mem_cons_self
      simp only [agree, hl, h x' hsecond y' hsecond]
    | _ => rfl
  | not x =>
    cases fb with
    | not y => exact h x List.mem_cons_self y List.mem_cons_self
    | _ => rfl
  | call f xs =>
    cases fb with
    | call k ys =>
      have hargs : xs.isEqv ys same = xs.isEqv ys same' := isEqv_congr fun x hx y hy =>
        h x (List.mem_cons_of_mem _ hx) y (List.mem_cons_of_mem _ hy)
      simp only [agree, h f List.mem_cons_self k List.mem_cons_self, hargs]
    | _ => rfl
  | conversion k x =>
    cases fb with
    | conversion l y => simp only [agree, h x List.mem_cons_self y List.mem_cons_self]
    | _ => rfl
  | requires ts ps rs =>
    cases fb with
    | requires us qs ss =>
      refine congrArg (ts == us && ps == qs && ·) (isEqv_congr fun r hr s hs => ?_)
      exact ReqForm.agree_congr fun u v hu hv =>
        h u (List.mem_filterMap.2 ⟨r, hr, hu⟩) v (List.mem_filterMap.2 ⟨s, hs, hv⟩)
    | _ => rfl
  | _ => cases fb <;> rfl

/-- **The comparisons that a comparison asks for come to an end**, since the first expression of
each pair stands inside that of the pair before. -/
theorem WellFormed.acc_asks (hg : g.WellFormed) {a : ExprHandle} (ha : g.contains a = true)
    (b : ExprHandle) : Acc g.Asks (a, b) := by
  obtain ⟨i⟩ := a
  induction i using Nat.strongRecOn generalizing b with
  | ind i ih =>
    refine ⟨_, fun pair hask => ?_⟩
    obtain ⟨x, y⟩ := pair
    exact ih x.index (hg.operand_lt ha hask.1) y (hg.contains_operand ha hask.1)

/-- **A comparison is made of the comparisons that it asks for.** -/
theorem WellFormed.equivalent_eq (hg : g.WellFormed) {a : ExprHandle} (ha : g.contains a = true)
    (b : ExprHandle) :
    g.equivalent a b = (a == b || g.agree g.equivalent (g.expr a) (g.expr b)) := by
  rw [equivalent]
  refine congrArg (a == b || ·) (agree_congr fun x hx y _ => ?_)
  exact dif_pos (hg.operand_lt ha hx)

/-! ## What a comparison says -/

/-- Comparing the two expressions ends and decides whether they erase to the same tree. -/
structure ComparedByErasure (g : Graph) (a b : ExprHandle) : Prop where
  /-- The comparisons that it asks for, one inside the other, come to an end. -/
  ends : Acc g.Asks (a, b)
  /-- Nothing but these comparisons is asked for. -/
  step : g.equivalent a b = (a == b || g.agree g.equivalent (g.expr a) (g.expr b))
  /-- Erasing goes into the expressions inside an expression. -/
  erase_eq : g.erase a = (g.expr a).erase g g.erase
  decides : g.equivalent a b = true ↔ g.erase a = g.erase b
  refl : g.equivalent a a = true
  symm : g.equivalent a b = g.equivalent b a
  trans : ∀ c, g.contains c = true → g.equivalent a b = true → g.equivalent b c = true →
    g.equivalent a c = true
  /-- Whatever becomes of the graph, the answer stays the same. -/
  stable : ∀ g', g.Evolves g' → g'.equivalent a b = g.equivalent a b

/-- **In every reachable graph, comparing expressions ends and decides whether they erase to the
same tree.**  So it is an equivalence relation, and its answers are never taken back. -/
theorem comparedByErasure_of_reachable (hg : g.Reachable) {a b : ExprHandle}
    (ha : g.contains a = true) (hb : g.contains b = true) : g.ComparedByErasure a b := by
  have hw := hg.wellFormed
  constructor
  case ends => exact hw.acc_asks ha b
  case step => exact hw.equivalent_eq ha b
  case erase_eq => exact hw.erase_eq ha
  case decides => exact hw.equivalent_iff ha hb
  case refl => exact equivalent_refl g a
  case symm => exact Bool.eq_iff_iff.2 ⟨hw.equivalent_symm ha hb, hw.equivalent_symm hb ha⟩
  case trans => exact fun c hc => hw.equivalent_trans ha hb hc
  case stable =>
    intro g' hevolves
    have hgrows := hevolves.grows hw
    exact hw.equivalent_extend (hgrows.wellFormed hw) hgrows.extends ha hb

/-- The graph of a literal, its expression 0, and of two calls of it, each with its own type. -/
def twoCalls : Graph :=
  let build : Build Unit := do
    let callee ← Build.intLiteral 3
    let s ← Build.autoType
    let _ ← Build.call s callee []
    let t ← Build.autoType
    let _ ← Build.call t callee []
  (build (.initial .empty 32)).2

theorem twoCalls_reachable : twoCalls.Reachable := by
  have hliteral := (Reachable.initial .empty 32).operation (.intLiteral 3)
  have hauto := hliteral.operation .autoType
  have hcall := hauto.operation (x := Build.call _ ⟨0⟩ [])
    (.call Build.Makes.autoType.2 rfl (by simp))
  have hauto' := hcall.operation .autoType
  exact hauto'.operation (x := Build.call _ ⟨0⟩ [])
    (.call Build.Makes.autoType.2 rfl (by simp))

theorem comparedByErasure_twoCalls :
    twoCalls.Reachable ∧ twoCalls.contains (⟨1⟩ : ExprHandle) = true ∧
      twoCalls.contains (⟨2⟩ : ExprHandle) = true ∧ twoCalls.ComparedByErasure ⟨1⟩ ⟨2⟩ :=
  ⟨twoCalls_reachable, rfl, rfl, comparedByErasure_of_reachable twoCalls_reachable rfl rfl⟩

end Graph
end SemanticCore
