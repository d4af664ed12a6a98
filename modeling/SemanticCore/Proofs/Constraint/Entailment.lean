import SemanticCore.Proofs.Constraint.NormalForm
import SemanticCore.Proofs.Graph.Yields

/-!
# Subsumption is entailment

Normalizing an expression builds a constraint that states the same formula, although its operands
may stand in another order and equal operands have been merged.  Subsumption between expressions is
therefore subsumption between these constraints, which is entailment, and entailment does not depend
on the constraints that normalizing has added.

* `Build.Normalizes.yields` — what normalizing keeps holds of every expression.
* `Build.Yields.normalize` — the constraint states what the expression states.
* `Graph.WellFormed.subsumes_iff` — **one expression subsumes another exactly if it entails it.**
-/

set_option autoImplicit false
namespace SemanticCore

open SemanticCore.Graph

variable {g g' : Graph}

/-- The constraint is in the graph and states what the formula states. -/
def Graph.States (g : Graph) (f : Formula) (c : ConsHandle) : Prop :=
  g.contains c = true ∧ ∀ v, (g.consFormula c).Holds v ↔ f.Holds v

theorem Graph.States.extend (hg : g.WellFormed) (h : g.Extends g') {f : Formula} {c : ConsHandle}
    (hc : g.States f c) : g'.States f c :=
  ⟨h.contains hc.1, fun v => by rw [hg.consFormula_extend h hc.1]; exact hc.2 v⟩

/-- Applying a concept that is one does not fail. -/
theorem Build.conceptConstraint_run {d : DeclHandle} (hd : g.isConceptDecl d = true)
    (args : List Term) : (Build.conceptConstraint d args).run g =
      (.ok (Build.constraint (.concept d args) g).1,
        (Build.constraint (.concept d args) g).2) := by
  rw [ExceptT.run, Build.conceptConstraint, Attempt.get_bind, if_pos hd]
  rfl

namespace Build.Yields

/-- Entering a form whose formula is known. -/
theorem constraint_states (hg : g.WellFormed) {f : ConsForm} {φ : Formula} (hf : f.Fits g)
    (hφ : ∀ v, (f.formula g.consFormula).Holds v ↔ φ.Holds v) :
    Yields g (Build.constraint f) fun c g' => g'.States φ c := by
  obtain ⟨hgrow, hc, hform⟩ := constraint hf
  refine ⟨hgrow, hc, fun v => ?_⟩
  rw [(hgrow.wellFormed hg).consFormula_eq hc, hform, ← hφ]
  rw [ConsForm.formula_congr fun x hx =>
    hg.consFormula_extend hgrow.extends (cons_operands_fit hf x hx)]

theorem predicate (hg : g.WellFormed) {e : ExprHandle} (he : g.contains e = true) :
    Yields g (Build.predicate e) fun c g' => g'.States (.atom (.expr e)) c :=
  constraint_states hg (f := .predicate e) he fun _ => Iff.rfl

/-- Entering a connective.  Its operands are put in order and equal ones are merged, which changes
nothing for a connective that is commutative and idempotent. -/
theorem connective_states (hg : g.WellFormed) (form : ConsHandle → ConsHandle → ConsForm)
    (op : Prop → Prop → Prop) [Std.Commutative op] [Std.IdempotentOp op]
    (hfit : ∀ a b, g.contains a = true → g.contains b = true → a < b → (form a b).Fits g)
    (hform : ∀ a b v, ((form a b).formula g.consFormula).Holds v ↔
      op ((g.consFormula a).Holds v) ((g.consFormula b).Holds v))
    {φ ψ χ : Formula} (hχ : ∀ v, χ.Holds v ↔ op (φ.Holds v) (ψ.Holds v)) {l r : ConsHandle}
    (hl : g.States φ l) (hr : g.States ψ r) :
    Yields g (if l = r then Pure.pure l else if l ≤ r then Build.constraint (form l r)
      else Build.constraint (form r l)) fun c g' => g'.States χ c := by
  have hops : ∀ v, op ((g.consFormula l).Holds v) ((g.consFormula r).Holds v) ↔ χ.Holds v :=
    fun v => by rw [hl.2 v, hr.2 v, hχ v]
  have hidem : ∀ p, op p p = p := Std.IdempotentOp.idempotent
  have hcomm : ∀ p q, op p q = op q p := Std.Commutative.comm
  split
  · next h =>
    subst h
    refine .pure ⟨hl.1, fun v => ?_⟩
    rw [← hops v, hidem]
  · next hne =>
    split
    · next hle =>
      have hlt : l < r := Nat.lt_of_le_of_ne hle fun h => hne (Handle.ext h)
      exact constraint_states hg (hfit l r hl.1 hr.1 hlt) fun v => (hform l r v).trans (hops v)
    · next hle =>
      refine constraint_states hg (hfit r l hr.1 hl.1 (Nat.lt_of_not_le hle)) fun v => ?_
      rw [hform r l v, hcomm, hops v]

theorem conjunction (hg : g.WellFormed) {l r : ConsHandle} {φ ψ : Formula} (hl : g.States φ l)
    (hr : g.States ψ r) :
    Yields g (Build.conjunction l r) fun c g' => g'.States (.and φ ψ) c :=
  connective_states hg .conjunction And (fun _ _ ha hb hlt => ⟨ha, hb, hlt⟩) (fun _ _ _ => Iff.rfl)
    (fun _ => Iff.rfl) hl hr

theorem disjunction (hg : g.WellFormed) {l r : ConsHandle} {φ ψ : Formula} (hl : g.States φ l)
    (hr : g.States ψ r) :
    Yields g (Build.disjunction l r) fun c g' => g'.States (.or φ ψ) c :=
  connective_states hg .disjunction Or (fun _ _ ha hb hlt => ⟨ha, hb, hlt⟩) (fun _ _ _ => Iff.rfl)
    (fun _ => Iff.rfl) hl hr

end Build.Yields

/-! ## What normalizing keeps -/

/-- A property of formulas and of the constraints that they are normalized to.  It holds of atoms,
it holds of a connective if it holds of the operands, and it goes on holding as the graph grows. -/
structure Build.Normalizes (P : Graph → Formula → ConsHandle → Prop) : Prop where
  extend : ∀ {g g' φ c}, g.WellFormed → g.Extends g' → P g φ c → P g' φ c
  predicate : ∀ {g : Graph} {e}, g.WellFormed → g.contains e = true →
    (∀ d args, (g.expr e).form ≠ .check d args) →
    Yields g (Build.predicate e) fun c g' => P g' (.atom (.expr e)) c
  concept : ∀ {g : Graph} {d args}, g.WellFormed → g.isConceptDecl d = true →
    (∀ a ∈ args, a.Fits g) →
    Yields g (Build.constraint (.concept d args)) fun c g' => P g' (.atom (.check d args)) c
  conjunction : ∀ {g φ ψ l r}, g.WellFormed → P g φ l → P g ψ r →
    Yields g (Build.conjunction l r) fun c g' => P g' (.and φ ψ) c
  disjunction : ∀ {g φ ψ l r}, g.WellFormed → P g φ l → P g ψ r →
    Yields g (Build.disjunction l r) fun c g' => P g' (.or φ ψ) c

/-- What normalizing keeps holds of every expression. -/
theorem Build.Normalizes.yields {P : Graph → Formula → ConsHandle → Prop} (hP : Normalizes P)
    (hg : g.WellFormed) {e : ExprHandle} (he : g.contains e = true) :
    Yields g (Build.normalize e) fun c g' => P g' (g.formula e) c := by
  obtain ⟨i⟩ := e
  induction i using Nat.strongRecOn generalizing g with
  | ind i ih =>
    have hfit := (hg.placed _ he).1.2
    have hlt := fun x hx => hg.operand_lt (x := x) he hx
    have hpredicate := hP.predicate hg he
    rw [Build.normalize, hg.formula_eq he]
    refine .get_bind ?_
    cases hf : (g.expr ⟨i⟩).form with
    | binary op l r =>
      rw [hf] at hfit hlt hpredicate
      have hl := hlt l List.mem_cons_self
      have hr := hlt r (List.mem_cons_of_mem _ List.mem_cons_self)
      -- the operands are normalized one after the other, the second in what the first has built
      have hops : ∀ {join : ConsHandle → ConsHandle → Build ConsHandle} {φ : Formula},
          (∀ {g₂ : Graph} {a b : ConsHandle}, g₂.WellFormed → P g₂ (g.formula l) a →
            P g₂ (g.formula r) b → Yields g₂ (join a b) fun c g' => P g' φ c) →
          Yields g (do let a ← Build.normalize l; let b ← Build.normalize r; join a b)
            fun c g' => P g' φ c := by
        intro join φ hjoin
        refine .bind hg (ih l.index hl hg hfit.1) fun a g₁ hgrow₁ hg₁ ha => ?_
        refine .bind hg₁ (ih r.index hr hg₁ (hgrow₁.contains hfit.2)) fun b g₂ hgrow₂ hg₂ hb => ?_
        rw [hg.formula_extend hgrow₁.extends hfit.2] at hb
        exact hjoin hg₂ (hP.extend hg₁ hgrow₂.extends ha) hb
      cases op with
      | and =>
        simp only [dif_pos (And.intro hl hr)]
        exact hops hP.conjunction
      | or =>
        simp only [dif_pos (And.intro hl hr)]
        exact hops hP.disjunction
      | _ => exact hpredicate fun _ _ => by simp
    | check d args =>
      rw [hf] at hfit
      refine .congr ?_ (hP.concept hg hfit.1 hfit.2.2)
      simp only [Bind.bind, StateT.bind, conceptConstraint_run hfit.1]
      rfl
    | _ => exact hpredicate fun _ _ => by simp [hf]

theorem Build.normalizes_states : Normalizes Graph.States where
  extend hg h hc := hc.extend hg h
  predicate hg he _ := .predicate hg he
  concept hg hd ha := .constraint_states hg (f := .concept _ _) ⟨hd, ha⟩ fun _ => Iff.rfl
  conjunction hg := .conjunction hg
  disjunction hg := .disjunction hg

/-- **Normalizing an expression gives a constraint that states what the expression states.** -/
theorem Build.Yields.normalize (hg : g.WellFormed) {e : ExprHandle} (he : g.contains e = true) :
    Yields g (Build.normalize e) fun c g' => g'.States (g.formula e) c :=
  normalizes_states.yields hg he

namespace Graph

/-- **One expression subsumes another exactly if it entails it.** -/
theorem WellFormed.subsumes_iff (hg : g.WellFormed) {p q : ExprHandle}
    (hp : g.contains p = true) (hq : g.contains q = true) :
    (Build.subsumes p q g).1 = true ↔ g.Entails p q := by
  obtain ⟨hgrow₁, hc, hvp⟩ := Build.Yields.normalize hg hp
  have hg₁ := hgrow₁.wellFormed hg
  obtain ⟨hgrow₂, hd, hvq⟩ := Build.Yields.normalize hg₁ (hgrow₁.contains hq)
  have hg₂ := hgrow₂.wellFormed hg₁
  have hrun : (Build.subsumes p q g).1 = Graph.consSubsumes
      (Build.normalize q (Build.normalize p g).2).2 (Build.normalize p g).1
      (Build.normalize q (Build.normalize p g).2).1 := rfl
  have hext := hgrow₁.extends.trans hgrow₂.extends
  rw [hrun, hg₂.consSubsumes_iff (hgrow₂.contains hc) hd, ← hg.entails_extend hg₂ hext hp hq]
  rw [Entails, hg.formula_extend hext hp, hg.formula_extend hext hq]
  simp only [hg₁.consFormula_extend hgrow₂.extends hc, hvp, hvq,
    hg.formula_extend hgrow₁.extends hq]

end Graph
end SemanticCore
