import SemanticCore.Proofs.Action.Reachable

/-!
# Subsumption decides entailment

In every graph that can be reached, one constraint expression subsumes another exactly if it
entails it.  Entailment is between expressions, so the answer is the same in every graph with these
expressions, whatever else has been entered before.
-/

set_option autoImplicit false
namespace SemanticCore
namespace Graph

variable {g : Graph}

/-- The answer is the same later on, and with other interned nodes. -/
theorem WellFormed.subsumes_eq (hg : g.WellFormed) {g' : Graph} (hg' : g'.WellFormed)
    (h : g.Extends g' ∨ g'.exprs = g.exprs ∧ g'.reqs = g.reqs) {p q : ExprHandle}
    (hp : g.contains p = true) (hq : g.contains q = true) :
    (Build.subsumes p q g').1 = (Build.subsumes p q g).1 := by
  rw [Bool.eq_iff_iff, hg.subsumes_iff hp hq]
  rcases h with h | ⟨he, hr⟩
  · rw [hg'.subsumes_iff (h.contains hp) (h.contains hq), hg.entails_extend hg' h hp hq]
  · have hcontains : ∀ e : ExprHandle, g'.contains e = g.contains e := fun e => by
      rw [contains, contains, count, count, he]
    rw [hg'.subsumes_iff ((hcontains p).trans hp) ((hcontains q).trans hq), entails_congr he hr]

/-- **Subsumption decides entailment.**  The answer is reflexive and transitive, and does not depend
on what is interned. -/
theorem subsumes_decides_entailment (hg : g.Reachable) {p q : ExprHandle}
    (hp : g.contains p = true) (hq : g.contains q = true) :
    ((Build.subsumes p q g).1 = true ↔ g.Entails p q) ∧
    (Build.subsumes p p g).1 = true ∧
    (∀ r, g.contains r = true → (Build.subsumes p q g).1 = true →
      (Build.subsumes q r g).1 = true → (Build.subsumes p r g).1 = true) ∧
    ∀ g', g'.Reachable → g.Extends g' ∨ g'.exprs = g.exprs ∧ g'.reqs = g.reqs →
      (Build.subsumes p q g').1 = (Build.subsumes p q g).1 := by
  have hw := hg.wellFormed
  refine ⟨hw.subsumes_iff hp hq, (hw.subsumes_iff hp hp).2 (entails_refl g p), ?_, ?_⟩
  · intro r hr hpq hqr
    rw [hw.subsumes_iff hp hq] at hpq
    rw [hw.subsumes_iff hq hr] at hqr
    exact (hw.subsumes_iff hp hr).2 (hpq.trans hqr)
  · exact fun g' hg' h => hw.subsumes_eq hg'.wellFormed h hp hq

/-- The graph of `true`, `false` and `true && false || true`, which are its expressions 0, 1
and 3. -/
def connectives : Graph :=
  let build : Build Unit := do
    let a ← Build.boolLiteral true
    let b ← Build.boolLiteral false
    let both ← Build.binary .and .bool a b
    let _ ← Build.binary .or .bool both a
  (build (.initial .empty 32)).2

theorem connectives_reachable : connectives.Reachable := by
  have hbinary : ∀ {g : Graph} (op : BinaryOp) (lhs rhs : ExprHandle), g.Reachable →
      g.contains lhs = true → g.contains rhs = true →
        (Build.binary op .bool lhs rhs g).2.Reachable := fun op _ _ hg hl hr =>
    hg.operation (.binary op hg.wellFormed.contains_bool hl hr)
  have hliterals := ((Reachable.initial .empty 32).operation (.boolLiteral true)).operation
    (.boolLiteral false)
  exact hbinary .or ⟨2⟩ ⟨0⟩ (hbinary .and ⟨0⟩ ⟨1⟩ hliterals rfl rfl) rfl rfl

/-- The last one says at least what `true` says, and not what `false` says. -/
theorem subsumes_decides_entailment_connectives :
    connectives.Reachable ∧ connectives.contains (⟨3⟩ : ExprHandle) = true ∧
    connectives.contains (⟨0⟩ : ExprHandle) = true ∧
    connectives.contains (⟨1⟩ : ExprHandle) = true ∧
    (Build.subsumes ⟨3⟩ ⟨0⟩ connectives).1 = true ∧ connectives.Entails ⟨3⟩ ⟨0⟩ ∧
    (Build.subsumes ⟨3⟩ ⟨1⟩ connectives).1 = false ∧ ¬ connectives.Entails ⟨3⟩ ⟨1⟩ := by
  have hyes : (Build.subsumes ⟨3⟩ ⟨0⟩ connectives).1 = true := by decide +kernel
  have hno : (Build.subsumes ⟨3⟩ ⟨1⟩ connectives).1 = false := by decide +kernel
  refine ⟨connectives_reachable, rfl, rfl, rfl, hyes,
    (subsumes_decides_entailment connectives_reachable rfl rfl).1.1 hyes, hno, fun hent => ?_⟩
  have h := (subsumes_decides_entailment connectives_reachable rfl rfl).1.2 hent
  cases hno.symm.trans h

end Graph
end SemanticCore
