import SemanticCore.Proofs.Action.Resolved
import SemanticCore.Proofs.Expr.Erasure
import SemanticCore.Proofs.Template.Consistency

/-!
# The static types of equivalent expressions

Equivalence of expressions ignores most static types, on the ground that the kind of an expression
fixes its type.  It does so only up to placeholders.  A call that depends on template parameters is
deferred in one context and resolved in another, and either may stand inside a further call that
looks the same in both contexts.

So equivalent expressions have types that are consistent (`Graph.Typing.consistent`).  The induction
is on the expression, and its step for a call of a template is that consistent arguments deduce
consistent template arguments.  Where neither of the types is dependent, nothing is left open, and
they are the same type.

* `Graph.WellFormed.consistent_of_erase_eq` — expressions that erase to the same tree have
  consistent types.
* `Graph.exprType_eq_of_equivalent` — **equivalent expressions have one type, unless one of them is
  dependent.**
-/

set_option autoImplicit false
namespace SemanticCore

/-- The forms that are of type `bool` whatever they are built from. -/
def ExprForm.isTruth : ExprForm → Bool
  | boolean _ | check _ _ | not _ | requires _ _ _ => true
  | _ => false

namespace Graph

variable {free : Prop} {g : Graph}

/-! ## Expressions that name a declaration -/

/-- Expressions that erase to the same tree name the same declaration, if one of them names any. -/
theorem WellFormed.form_eq_of_erase_eq (hg : g.WellFormed) {a b : ExprHandle}
    (ha : g.contains a = true) (hb : g.contains b = true) (h : g.erase a = g.erase b)
    (d : DeclHandle) :
    ((g.expr a).form = .reference d ↔ (g.expr b).form = .reference d) ∧
      ((g.expr a).form = .templateRef d ↔ (g.expr b).form = .templateRef d) := by
  rw [hg.erase_eq ha, hg.erase_eq hb] at h
  constructor
  · exact erase_eq_reference.symm.trans ((Eq.congr_left h).trans erase_eq_reference)
  · exact erase_eq_templateRef.symm.trans ((Eq.congr_left h).trans erase_eq_templateRef)

/-! ## One expression -/

theorem WellFormed.isOpen_of_auto (hg : g.WellFormed) {t : TypeHandle} {n : UInt32}
    (ht : g.contains t = true) (h : g.type t = .auto n) : (g.typeTree t).IsOpen := by
  rw [hg.typeTree_eq ht, h]
  exact .auto n

/-- The type of an operator is `bool`, or for an arithmetic operator a placeholder or the type of
its operands. -/
theorem Typing.binary_cases {op : BinaryOp} {l r : ExprHandle} {t : TypeHandle}
    (h : Typing free g (.binary op l r) t) :
    op.isArithmetic = false ∧ t = .bool ∨
      op.isArithmetic = true ∧ ((∃ n, g.type t = .auto n) ∨ g.exprType l = t) := by
  have hgroup := op.isArithmetic_eq
  cases h with
  | logical hop => exact .inl ⟨by rw [hgroup, hop]; rfl, rfl⟩
  | comparison hop => exact .inl ⟨by rw [hgroup, hop, Bool.not_true, Bool.and_false], rfl⟩
  | deferredComparison hop => exact .inl ⟨by rw [hgroup, hop, Bool.not_true, Bool.and_false], rfl⟩
  | arithmetic hop _ hl => exact .inr ⟨hop, .inr hl⟩
  | @deferredArithmetic _ _ _ _ n hop _ ht => exact .inr ⟨hop, .inl ⟨n, ht⟩⟩

theorem Typing.binary_consistent (hg : g.WellFormed) {op : BinaryOp} {l l' r r' : ExprHandle}
    {s t : TypeHandle} (hs : g.contains s = true) (ht : g.contains t = true)
    (ha : Typing free g (.binary op l r) s) (hb : Typing free g (.binary op l' r') t)
    (hl : g.ConsistentTypes l l') : (g.typeTree s).Consistent (g.typeTree t) := by
  rcases ha.binary_cases with ⟨hop, rfl⟩ | ⟨hop, ⟨n, hn⟩ | hta⟩
  · rcases hb.binary_cases with ⟨-, rfl⟩ | ⟨hop', -⟩
    · exact .refl _
    · cases hop.symm.trans hop'
  · exact .left (hg.isOpen_of_auto hs hn) _
  · rcases hb.binary_cases with ⟨hop', -⟩ | ⟨-, ⟨n, hn⟩ | htb⟩
    · cases hop.symm.trans hop'
    · exact .right _ (hg.isOpen_of_auto ht hn)
    · rwa [ConsistentTypes, hta, htb] at hl

/-- Calls of equivalent callees have consistent types if the arguments have. -/
theorem Typing.call_consistent (hg : g.WellFormed) {callee callee' : ExprHandle}
    {args args' : List ExprHandle} {s t : TypeHandle} (hs : g.contains s = true)
    (ht : g.contains t = true) (hc : g.contains callee = true) (hc' : g.contains callee' = true)
    (hargs : ∀ e ∈ args, g.contains e = true) (hargs' : ∀ e ∈ args', g.contains e = true)
    (ha : Typing free g (.call callee args) s) (hb : Typing free g (.call callee' args') t)
    (hcallee : g.erase callee = g.erase callee') (h : g.ConsistentArgs args args') :
    (g.typeTree s).Consistent (g.typeTree t) := by
  have hform := hg.form_eq_of_erase_eq hc hc' hcallee
  cases ha with
  | deferredCall _ hn => exact .left (hg.isOpen_of_auto hs hn) _
  | call hf hd hfn =>
    cases hb with
    | deferredCall _ hn => exact .right _ (hg.isOpen_of_auto ht hn)
    | call hf' hd' hfn' =>
      cases ((hform _).1.1 hf).symm.trans hf'
      cases hd.symm.trans hd'
      cases hfn.symm.trans hfn'
      exact .refl _
    | templateCall hf' => cases ((hform _).1.1 hf).symm.trans hf'
  | templateCall hf htemplate hpattern hdeduce hspec hret =>
    cases hb with
    | deferredCall _ hn => exact .right _ (hg.isOpen_of_auto ht hn)
    | call hf' => cases ((hform _).2.1 hf).symm.trans hf'
    | templateCall hf' htemplate' hpattern' hdeduce' hspec' hret' =>
      cases ((hform _).2.1 hf).symm.trans hf'
      cases htemplate.symm.trans htemplate'
      cases hpattern.symm.trans hpattern'
      -- one template, so the two deductions differ in the types of the arguments only
      have hsubst := hg.deduce_consistent (hg.contains_template htemplate).1 hargs hargs' h hdeduce
        hdeduce'
      exact hg.ret_consistent hsubst hpattern hspec hspec' hret hret'

/-- Two names of one declaration have the same type, since there is one type of references to its
type. -/
theorem Typing.reference_type_eq {d : DeclHandle} {s t : TypeHandle} (hs : g.contains s = true)
    (ht : g.contains t = true) (ha : Typing free g (.reference d) s)
    (hb : Typing free g (.reference d) t) : s = t := by
  cases ha with
  | reference hd hsf =>
    cases hb with
    | reference hd' htf =>
      cases hd.symm.trans hd'
      exact type_injective hs ht (hsf.trans htf.symm)

theorem Typing.synthetic_type {d : DeclHandle} {t : TypeHandle}
    (h : Typing free g (.synthetic d) t) : g.declaredType? d = some t := by
  cases h with
  | synthetic hd => exact hd

theorem Typing.type_eq_bool {f : ExprForm} {t : TypeHandle} (h : Typing free g f t)
    (hf : f.isTruth = true) : t = .bool := by
  cases h with
  | boolean _ | check _ _ | not _ | requires _ _ _ => rfl
  | _ => cases hf

theorem isTruth_eq_of_erase_eq {part : ExprHandle → ErasedExpr} {a b : Expr}
    (h : a.erase g part = b.erase g part) :
    a.form.isTruth = b.form.isTruth := by
  obtain ⟨fa, s⟩ := a
  obtain ⟨fb, t⟩ := b
  cases fa <;> cases fb <;> first | rfl | cases h

/-- Two expressions that erase to the same tree have consistent types, if this is so for the
expressions inside them. -/
theorem Typing.consistent (hg : g.WellFormed) {a b : Expr} (hfa : a.Fits g) (hfb : b.Fits g)
    (ha : Typing free g a.form a.type) (hb : Typing free g b.form b.type)
    (h : a.erase g g.erase = b.erase g g.erase)
    (ih : ∀ x ∈ a.form.operands g, ∀ y ∈ b.form.operands g, g.erase x = g.erase y →
      g.ConsistentTypes x y) : (g.typeTree a.type).Consistent (g.typeTree b.type) := by
  obtain ⟨fa, s⟩ := a
  obtain ⟨fb, t⟩ := b
  have htruth := isTruth_eq_of_erase_eq h
  cases fa with
  | boolean _ | check _ _ | not _ | requires _ _ _ =>
    rw [ha.type_eq_bool rfl, hb.type_eq_bool htruth.symm]
    exact .refl _
  | integer n =>
    obtain ⟨-, rfl⟩ := erase_eq_integer.1 h.symm
    exact .refl _
  | conversion k x =>
    obtain ⟨y, -, rfl, -⟩ := erase_eq_conversion.1 h.symm
    exact .refl _
  | reference d =>
    obtain rfl : fb = .reference d := erase_eq_reference.1 h.symm
    obtain rfl := ha.reference_type_eq hfa.1 hfb.1 hb
    exact .refl _
  | synthetic d =>
    obtain rfl : fb = .synthetic d := erase_eq_synthetic.1 h.symm
    cases ha.synthetic_type.symm.trans hb.synthetic_type
    exact .refl _
  | templateRef d =>
    cases ha with
    | templateRef _ hn => exact .left (hg.isOpen_of_auto hfa.1 hn) _
  | binary op l r =>
    obtain ⟨l', r', hform, hl, -⟩ := erase_eq_binary.1 h.symm
    obtain rfl : fb = .binary op l' r' := hform
    have hleft := ih l List.mem_cons_self l' List.mem_cons_self hl.symm
    exact ha.binary_consistent hg hfa.1 hfb.1 hb hleft
  | call callee args =>
    obtain ⟨callee', args', hform, hcallee, hargs⟩ := erase_eq_call.1 h.symm
    obtain rfl : fb = .call callee' args' := hform
    refine ha.call_consistent hg hfa.1 hfb.1 hfa.2.1 hfb.2.1 hfa.2.2 hfb.2.2 hb hcallee.symm
      fun i x y hx hy => ?_
    have hxy := congrArg (·[i]?) hargs.symm
    simp only [List.getElem?_map, hx, hy, Option.map_some, Option.some.injEq] at hxy
    exact ih x (List.mem_cons_of_mem _ (List.mem_of_getElem? hx)) y
      (List.mem_cons_of_mem _ (List.mem_of_getElem? hy)) hxy

/-! ## All expressions -/

/-- **Expressions that erase to the same tree have consistent types.** -/
theorem WellFormed.consistent_of_erase_eq (hg : g.WellFormed) (hw : g.WellTyped free)
    {a b : ExprHandle} (ha : g.contains a = true) (hb : g.contains b = true)
    (h : g.erase a = g.erase b) : g.ConsistentTypes a b := by
  obtain ⟨i⟩ := a
  induction i using Nat.strongRecOn generalizing b with
  | ind i ih =>
    rw [hg.erase_eq ha, hg.erase_eq hb] at h
    refine Typing.consistent hg (hg.placed _ ha).1 (hg.placed _ hb).1 (hw _ ha) (hw _ hb) h
      fun x hx y hy hxy => ?_
    exact ih x.index (hg.operand_lt ha hx) (hg.contains_operand hb hy)
      (hg.contains_operand ha hx) hxy

/-- **Equivalent expressions have one static type, unless one of them is dependent.** -/
theorem exprType_eq_of_equivalent (hg : g.Resolved True) {a b : ExprHandle}
    (ha : g.contains a = true) (hb : g.contains b = true) (h : g.equivalent a b = true)
    (hda : g.isTypeDependent a = false) (hdb : g.isTypeDependent b = false) :
    g.exprType a = g.exprType b := by
  obtain ⟨hw, htyped⟩ := hg.invariant
  have hconsistent := hw.consistent_of_erase_eq htyped ha hb ((hw.equivalent_iff ha hb).1 h)
  exact hw.eq_of_consistent (hw.contains_exprType ha) (hw.contains_exprType hb) hconsistent hda hdb

/-- The graph of a template `template<typename T> int f(T x)`, its declaration 4, of its name, the
expression 0, and of a literal, the expression 1. -/
def templateToInt : Graph :=
  let build : Build Unit := do
    let d ← Build.typeParam .globalName none
    if let .ok t ← (Build.typenameType d).run then
      let x ← Build.objectParam .globalName t
      let int ← Build.intType
      if let .ok f ← (Build.functionDecl .globalName [x] int).run then
        let template ← Build.templateDecl [d] f none
        let _ ← (Build.templateReference template).run
        let _ ← Build.intLiteral 3
  (build (.initial .empty 32)).2

theorem templateToInt_resolved : templateToInt.Resolved True := by
  have hinitial : Resolved True (.initial .empty 32) := .initial .empty 32
  have hparam := hinitial.operation (x := Build.typeParam .globalName none)
    (.quiet (.typeParam rfl (by simp)) (.decl _ _))
  have htypename := hparam.operation
    (.quiet (.typenameType (d := ⟨1⟩) rfl) (Attempt.Quiet.typenameType _))
  have hobject := htypename.operation
    (.quiet (.objectParam (n := .globalName) (t := ⟨3⟩) rfl rfl) (.decl _ _))
  have hint := hobject.operation (.quiet .intType .intType)
  have hfunction := hint.operation (x := (Build.functionDecl .globalName [⟨2⟩] ⟨4⟩).run)
    (.quiet (.functionDecl rfl (by simp; rfl) rfl) (Attempt.Quiet.functionDecl _ _ _))
  have htemplate := hfunction.operation (x := Build.templateDecl [⟨1⟩] ⟨3⟩ none)
    (.quiet (.templateDecl (by simp; rfl) rfl (by simp)) (.templateDecl _ _ _))
  exact (htemplate.operation (.templateReference (d := ⟨4⟩) rfl)).operation (.intLiteral 3)

/-- The template is called with the literal.  The call is deferred first, as the expression 2, and
then resolved, as the expression 3. -/
def innerCall : Graph := templateToInt.afterCall ⟨0⟩ [⟨1⟩]

/-- The template is called with the deferred call and with the resolved one.  These two calls are
resolved in turn, as the expressions 5 and 7. -/
def outerCalls : Graph := (innerCall.afterCall ⟨0⟩ [⟨2⟩]).afterCall ⟨0⟩ [⟨3⟩]

theorem outerCalls_resolved : outerCalls.Resolved True := by
  have hinner : innerCall.Resolved True := templateToInt_resolved.afterCall rfl (by simp; rfl)
  have hfirst : (innerCall.afterCall ⟨0⟩ [⟨2⟩]).Resolved True :=
    hinner.afterCall (by decide +kernel) (by decide +kernel)
  exact hfirst.afterCall (by decide +kernel) (by decide +kernel)

/-- The arguments of the two calls have different types, and what is deduced is `auto` for one and
`int` for the other. -/
theorem exprType_eq_of_equivalent_outerCalls :
    outerCalls.Resolved True ∧ outerCalls.contains (⟨5⟩ : ExprHandle) = true ∧
      outerCalls.contains (⟨7⟩ : ExprHandle) = true ∧ outerCalls.equivalent ⟨5⟩ ⟨7⟩ = true ∧
      outerCalls.isTypeDependent ⟨5⟩ = false ∧ outerCalls.isTypeDependent ⟨7⟩ = false ∧
      (outerCalls.expr ⟨5⟩).form = .call ⟨0⟩ [⟨2⟩] ∧ (outerCalls.expr ⟨7⟩).form = .call ⟨0⟩ [⟨3⟩] ∧
      outerCalls.exprType ⟨2⟩ ≠ outerCalls.exprType ⟨3⟩ ∧
      outerCalls.exprType ⟨5⟩ = outerCalls.exprType ⟨7⟩ := by
  have ha : outerCalls.contains (⟨5⟩ : ExprHandle) = true := by decide +kernel
  have hb : outerCalls.contains (⟨7⟩ : ExprHandle) = true := by decide +kernel
  have h : outerCalls.equivalent ⟨5⟩ ⟨7⟩ = true := by decide +kernel
  have hda : outerCalls.isTypeDependent ⟨5⟩ = false := by decide +kernel
  have hdb : outerCalls.isTypeDependent ⟨7⟩ = false := by decide +kernel
  exact ⟨outerCalls_resolved, ha, hb, h, hda, hdb, by decide +kernel, by decide +kernel,
    by decide +kernel, exprType_eq_of_equivalent outerCalls_resolved ha hb h hda hdb⟩

end Graph
end SemanticCore
