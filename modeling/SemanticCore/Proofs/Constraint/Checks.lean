import SemanticCore.Proofs.Constraint.Entailment
import SemanticCore.Proofs.Graph.Traversal

/-!
# Normalizing keeps checks

When a check is normalized, the constraint is built from its concept; were this to fail, the check
would be kept as a predicate, and no constraint that states the concept would be recognized in it.
In a well-formed graph it does not fail, whatever connectives the check stands under.

* `Graph.WellFormed.normalize_check` — a check is normalized to its concept.
* `Graph.WellFormed.normalize_keepsChecks` — **normalizing makes no predicate of a check.**
-/

set_option autoImplicit false
namespace SemanticCore

open SemanticCore.Graph

variable {g g' : Graph}

/-- A constraint is reached from another one through the operands of connectives. -/
def Graph.ReachesCons (g : Graph) : ConsHandle → ConsHandle → Prop :=
  Relation.ReflTransGen fun c x => x ∈ (g.cons c).operands

/-- No predicate inside the constraint is about a check. -/
def Graph.KeepsChecks (g : Graph) (c : ConsHandle) : Prop :=
  ∀ k x, g.ReachesCons c k → g.cons k = .predicate x →
    ∀ d args, (g.expr x).form ≠ .check d args

namespace Graph

theorem ReachesCons.of_extends (hg : g.WellFormed) (h : g.Extends g') {c k : ConsHandle}
    (hc : g.contains c = true) (hk : g'.ReachesCons c k) :
    g.contains k = true ∧ g.ReachesCons c k := by
  induction hk with
  | refl => exact ⟨hc, .refl⟩
  | @tail a b _ hstep ih =>
    obtain ⟨ha, hreach⟩ := ih
    rw [h.cons ha] at hstep
    exact ⟨cons_operands_fit (hg.placed a ha).1 b hstep, hreach.tail hstep⟩

theorem KeepsChecks.extend (hg : g.WellFormed) (h : g.Extends g') {c : ConsHandle}
    (hc : g.contains c = true) (hkeeps : g.KeepsChecks c) : g'.KeepsChecks c := by
  intro k x hk hpred d args
  obtain ⟨hcontains, hreach⟩ := hk.of_extends hg h hc
  rw [h.cons hcontains] at hpred
  have hx : g.contains x = true := hg.fits_of_cons hcontains hpred
  rw [h.expr hx]
  exact hkeeps k x hreach hpred d args

/-- An atom keeps checks unless it is a predicate about one. -/
theorem keepsChecks_atom {c : ConsHandle} (hops : (g.cons c).operands = [])
    (h : ∀ x, g.cons c = .predicate x → ∀ d args, (g.expr x).form ≠ .check d args) :
    g.KeepsChecks c := by
  intro k x hk hpred
  rcases hk.cases_head with rfl | ⟨y, hy, -⟩
  · exact h x hpred
  · rw [hops] at hy
    cases hy

theorem keepsChecks_connective {c l r : ConsHandle} (hops : (g.cons c).operands = [l, r])
    (hl : g.KeepsChecks l) (hr : g.KeepsChecks r) : g.KeepsChecks c := by
  intro k x hk hpred
  rcases hk.cases_head with rfl | ⟨y, hy, hk⟩
  · rw [hpred] at hops
    cases hops
  · rw [hops] at hy
    rcases List.mem_cons.1 hy with rfl | hy
    · exact hl k x hk hpred
    · rw [List.mem_singleton.1 hy] at hk
      exact hr k x hk hpred

/-- A check is normalized to its concept, applied to its arguments. -/
theorem WellFormed.normalize_check (hg : g.WellFormed) {e : ExprHandle}
    (he : g.contains e = true) {d : DeclHandle} {args : List Term}
    (hf : (g.expr e).form = .check d args) :
    Build.normalize e g = Build.constraint (.concept d args) g := by
  have hfit := (hg.fits_of_expr he hf).2
  rw [hg.normalize_eq he, Build.normalizeStep, Build.get_bind, hf]
  simp only [bind, StateT.bind, Build.conceptConstraint_run hfit.1]
  rfl

end Graph

/-- The computation makes a constraint without a predicate about a check. -/
abbrev Build.YieldsChecks (g : Graph) (x : Build ConsHandle) : Prop :=
  Build.Yields g x fun c g' => g'.contains c = true ∧ g'.KeepsChecks c

namespace Build.YieldsChecks

theorem concept (d : DeclHandle) {args : List Term} (hd : g.isConceptDecl d = true)
    (ha : ∀ a ∈ args, a.Fits g) : YieldsChecks g (Build.constraint (.concept d args)) := by
  obtain ⟨hgrow, hc, hf⟩ := Yields.constraint (f := .concept d args) ⟨hd, ha⟩
  refine ⟨hgrow, hc, keepsChecks_atom (by rw [hf]; rfl) fun x hx => ?_⟩
  rw [hf] at hx
  cases hx

theorem predicate {e : ExprHandle} (he : g.contains e = true)
    (hne : ∀ d args, (g.expr e).form ≠ .check d args) : YieldsChecks g (Build.predicate e) := by
  obtain ⟨hgrow, hc, hf⟩ := Yields.constraint (f := .predicate e) he
  refine ⟨hgrow, hc, keepsChecks_atom (by rw [Build.predicate, hf]; rfl) fun x hx => ?_⟩
  rw [Build.predicate, hf] at hx
  cases hx
  rw [Build.predicate, hgrow.extends.expr he]
  exact hne

/-- Joining constraints by a connective, whose operands are put in order. -/
theorem connective (form : ConsHandle → ConsHandle → ConsForm) (hg : g.WellFormed)
    (hform : ∀ a b, (form a b).operands = [a, b])
    (hfit : ∀ a b, g.contains a = true → g.contains b = true → a < b → (form a b).Fits g)
    {l r : ConsHandle} (hl : g.contains l = true ∧ g.KeepsChecks l)
    (hr : g.contains r = true ∧ g.KeepsChecks r) :
    YieldsChecks g (if l = r then Pure.pure l else if l ≤ r then Build.constraint (form l r)
      else Build.constraint (form r l)) := by
  have hjoin : ∀ a b, g.contains a = true ∧ g.KeepsChecks a → g.contains b = true ∧
      g.KeepsChecks b → a < b → YieldsChecks g (Build.constraint (form a b)) := by
    intro a b ha hb hlt
    obtain ⟨hgrow, hc, hf⟩ := Yields.constraint (hfit a b ha.1 hb.1 hlt)
    exact ⟨hgrow, hc, keepsChecks_connective (by rw [hf, hform])
      (ha.2.extend hg hgrow.extends ha.1) (hb.2.extend hg hgrow.extends hb.1)⟩
  split
  · exact .pure hl
  · next hne =>
    split
    · next hle => exact hjoin l r hl hr (Nat.lt_of_le_of_ne hle fun h => hne (Handle.ext h))
    · next hle => exact hjoin r l hr hl (Nat.lt_of_not_le hle)

end Build.YieldsChecks

/-- What is true of the constraints that are built is kept by joining them. -/
theorem Build.normalizes_keepsChecks :
    Normalizes fun g _ c => g.contains c = true ∧ g.KeepsChecks c where
  extend hg h hc := ⟨h.contains hc.1, hc.2.extend hg h hc.1⟩
  predicate _ he hne := YieldsChecks.predicate he hne
  concept _ hd ha := YieldsChecks.concept _ hd ha
  conjunction hg := YieldsChecks.connective .conjunction hg (fun _ _ => rfl)
    fun _ _ ha hb hlt => ⟨ha, hb, hlt⟩
  disjunction hg := YieldsChecks.connective .disjunction hg (fun _ _ => rfl)
    fun _ _ ha hb hlt => ⟨ha, hb, hlt⟩

/-- **Normalizing makes no predicate of a check.** -/
theorem Graph.WellFormed.normalize_keepsChecks (hg : g.WellFormed) {e : ExprHandle}
    (he : g.contains e = true) : Build.YieldsChecks g (Build.normalize e) :=
  Build.normalizes_keepsChecks.yields hg he

end SemanticCore
