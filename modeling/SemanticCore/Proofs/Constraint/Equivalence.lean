import SemanticCore.Proofs.Constraint.Admission

/-!
# Equivalent constraints

There are two notions of sameness.  Expressions are equivalent if they have the same structure, and
this comparison goes on inside the arguments of a check.  Atoms of constraints, on the other hand,
are the same if they are the same node or predicates over equivalent expressions; so two checks are
one atom only if their arguments are identical, which arguments that are expressions need not be
although they are equivalent.

This is all that can come between the two.  Equivalent constraints whose checks, place by place,
have identical arguments state the same formula up to equivalent atoms, so each subsumes the other.

* `Graph.WellFormed.holds_iff_of_equivalent` — equivalent constraints hold together.
* `Graph.Reachable.subsumes_of_equivalent` — **equivalent constraints subsume each other, if checks
  at the same place have the same arguments.**
* `Graph.not_subsumes_of_equivalent_checks` — without this they need not.
-/

set_option autoImplicit false
namespace SemanticCore
namespace Graph

variable {g : Graph} {a b x y : ExprHandle}

/-! ## Reading the form of an expression off what it erases to -/

section Forms

variable (hg : g.WellFormed) (ha : g.contains a = true) (hb : g.contains b = true)
  (h : g.erase a = g.erase b)

include hg ha hb h

/-- An expression of the same structure as a binary one has the same operator, and operands of the
same structure. -/
theorem WellFormed.binary_of_erase_eq {op : BinaryOp} {l r : ExprHandle}
    (hf : (g.expr b).form = .binary op l r) :
    ∃ l' r', (g.expr a).form = .binary op l' r' ∧ g.erase l' = g.erase l ∧
      g.erase r' = g.erase r := by
  rw [hg.erase_eq ha, hg.erase_eq hb] at h
  exact erase_eq_binary.1 (h.trans (erase_eq_binary.2 ⟨l, r, hf, rfl, rfl⟩))

theorem WellFormed.check_of_erase_eq {d : DeclHandle} {args : List Term}
    (hf : (g.expr b).form = .check d args) : ∃ args', (g.expr a).form = .check d args' := by
  rw [hg.erase_eq ha, hg.erase_eq hb] at h
  obtain ⟨args', hf', -⟩ := erase_eq_check.1 (h.trans (erase_eq_check.2 ⟨args, hf, rfl⟩))
  exact ⟨args', hf'⟩

/-- An expression of the same structure as a predicate is one. -/
theorem WellFormed.isPredicate_of_erase_eq (hp : (g.expr a).form.isPredicate = true) :
    (g.expr b).form.isPredicate = true := by
  cases hf : (g.expr b).form with
  | binary op l r =>
    obtain ⟨l', r', hf', -⟩ := hg.binary_of_erase_eq ha hb h hf
    rw [hf'] at hp
    cases op <;> first | rfl | cases hp
  | check d args =>
    obtain ⟨args', hf'⟩ := hg.check_of_erase_eq ha hb h hf
    rw [hf'] at hp
    cases hp
  | _ => rfl

end Forms

/-! ## Equivalent constraints -/

/-- The expressions `x` and `y` stand at the same place in `a` and in `b`, below connectives
only. -/
inductive Corresponding (g : Graph) : ExprHandle → ExprHandle → ExprHandle → ExprHandle → Prop
  | here (a b : ExprHandle) : Corresponding g a b a b
  | left {op : BinaryOp} {a b l r l' r' x y : ExprHandle} (hop : op.isLogical = true)
    (ha : (g.expr a).form = .binary op l r) (hb : (g.expr b).form = .binary op l' r')
    (h : Corresponding g l l' x y) : Corresponding g a b x y
  | right {op : BinaryOp} {a b l r l' r' x y : ExprHandle} (hop : op.isLogical = true)
    (ha : (g.expr a).form = .binary op l r) (hb : (g.expr b).form = .binary op l' r')
    (h : Corresponding g r r' x y) : Corresponding g a b x y

/-- Checks of one concept that stand at the same place have the same arguments. -/
def ChecksAgree (g : Graph) (a b : ExprHandle) : Prop :=
  ∀ x y d args args', g.Corresponding a b x y → (g.expr x).form = .check d args →
    (g.expr y).form = .check d args' → args = args'

theorem checksAgree_of_check {d : DeclHandle} {args : List Term}
    (ha : (g.expr a).form = .check d args) (hb : (g.expr b).form = .check d args) :
    g.ChecksAgree a b := by
  intro x y d' as as' hxy hx hy
  cases hxy with
  | here =>
    cases ha.symm.trans hx
    cases hb.symm.trans hy
    rfl
  | left _ hf _ _ | right _ hf _ _ => cases ha.symm.trans hf

/-- **Equivalent constraints hold together**, if checks at the same place have the same
arguments. -/
theorem WellFormed.holds_iff_of_equivalent (hg : g.WellFormed) {v : Atom → Prop}
    (hv : g.Respects v) (ha : g.contains a = true) (hb : g.contains b = true)
    (h : g.equivalent a b = true) (hchecks : g.ChecksAgree a b) :
    (g.formula a).Holds v ↔ (g.formula b).Holds v := by
  obtain ⟨i⟩ := a
  induction i using Nat.strongRecOn generalizing b with
  | ind i ih =>
    have herase := (hg.equivalent_iff ha hb).1 h
    have hatom : (g.expr ⟨i⟩).form.isPredicate = true →
        ((g.formula ⟨i⟩).Holds v ↔ (g.formula b).Holds v) := by
      intro hp
      rw [hg.formula_eq ha, hg.formula_eq hb, ExprForm.formula_of_isPredicate hp,
        ExprForm.formula_of_isPredicate (hg.isPredicate_of_erase_eq ha hb herase hp)]
      exact hv _ b ha hb h
    cases hf : (g.expr ⟨i⟩).form with
    | binary op l r =>
      cases hop : op.isLogical with
      | false => exact hatom (by rw [hf]; cases op <;> first | rfl | cases hop)
      | true =>
        obtain ⟨l', r', hf', hl, hr⟩ := hg.binary_of_erase_eq hb ha herase.symm hf
        have hfit := (hg.fits_of_expr ha hf).2
        have hfit' := (hg.fits_of_expr hb hf').2
        have hlt : ∀ x ∈ [l, r], x.index < i := fun x hx =>
          hg.operand_lt ha (by rw [hf]; exact hx)
        have hleft := ih l.index (hlt l List.mem_cons_self) hfit'.1 hfit.1
          ((hg.equivalent_iff hfit.1 hfit'.1).2 hl.symm)
          fun x y d as as' hxy => hchecks x y d as as' (.left hop hf hf' hxy)
        have hright := ih r.index (hlt r (List.mem_cons_of_mem _ List.mem_cons_self)) hfit'.2 hfit.2
          ((hg.equivalent_iff hfit.2 hfit'.2).2 hr.symm)
          fun x y d as as' hxy => hchecks x y d as as' (.right hop hf hf' hxy)
        rw [hg.formula_eq ha, hg.formula_eq hb, hf, hf']
        cases op with
        | and => exact and_congr hleft hright
        | or => exact or_congr hleft hright
        | _ => cases hop
    | check d args =>
      obtain ⟨args', hf'⟩ := hg.check_of_erase_eq hb ha herase.symm hf
      rw [hg.formula_eq ha, hg.formula_eq hb, hf, hf',
        hchecks _ b d args args' (.here _ b) hf hf']
      exact Iff.rfl
    | _ => exact hatom (by rw [hf]; rfl)

/-- Checks with different arguments do not entail each other: one may be true and the other
false. -/
theorem WellFormed.entails_check_iff (hg : g.WellFormed) (ha : g.contains a = true)
    (hb : g.contains b = true) {d : DeclHandle} {args args' : List Term}
    (hfa : (g.expr a).form = .check d args) (hfb : (g.expr b).form = .check d args') :
    g.Entails a b ↔ args = args' := by
  rw [Entails, hg.formula_eq ha, hg.formula_eq hb, hfa, hfb]
  constructor
  · intro h
    have hargs := h (· = .check d args) (fun x y _ _ _ => by simp) rfl
    exact (Atom.check.inj hargs).2.symm
  · rintro rfl v - hv
    exact hv

/-- **Equivalent constraints subsume each other**, if checks at the same place have the same
arguments.  Between equivalent checks nothing less will do. -/
theorem Reachable.subsumes_of_equivalent (hg : g.Reachable) (ha : g.contains a = true)
    (hb : g.contains b = true) (h : g.equivalent a b = true) :
    (g.ChecksAgree a b → (Build.subsumes a b g).1 = true ∧ (Build.subsumes b a g).1 = true) ∧
    ∀ d args args', (g.expr a).form = .check d args → (g.expr b).form = .check d args' →
      ((Build.subsumes a b g).1 = true ↔ args = args') ∧
        ((Build.subsumes b a g).1 = true ↔ args = args') := by
  have hw := hg.wellFormed
  constructor
  · intro hchecks
    have hiff : ∀ v, g.Respects v → ((g.formula a).Holds v ↔ (g.formula b).Holds v) :=
      fun v hv => hw.holds_iff_of_equivalent hv ha hb h hchecks
    exact ⟨(hw.subsumes_iff ha hb).2 fun v hv => (hiff v hv).1,
      (hw.subsumes_iff hb ha).2 fun v hv => (hiff v hv).2⟩
  · intro d args args' hfa hfb
    rw [hw.subsumes_iff ha hb, hw.subsumes_iff hb ha, hw.entails_check_iff ha hb hfa hfb,
      hw.entails_check_iff hb ha hfb hfa]
    exact ⟨Iff.rfl, eq_comm⟩

/-- A graph of two literals `5`, its expressions 0 and 1, and of three checks of one concept, its
expressions 2 to 4: of the first literal, of the second one, and of the first one again. -/
def checkedLiterals : Graph :=
  let build : Build Unit := do
    let d ← Build.conceptDecl .globalName [] none
    let x ← Build.intLiteral 5
    let y ← Build.intLiteral 5
    let _ ← (Build.conceptCheck d [.expr x]).run
    let _ ← (Build.conceptCheck d [.expr y]).run
    let _ ← (Build.conceptCheck d [.expr x]).run
  (build (.initial .empty 32)).2

theorem checkedLiterals_reachable : checkedLiterals.Reachable := by
  have hcheck : ∀ {g : Graph} (d : DeclHandle) (e : ExprHandle), g.Reachable →
      g.contains d = true → g.contains e = true →
        ((Build.conceptCheck d [.expr e]).run g).2.Reachable := fun d e hg hd he =>
    hg.operation (.conceptCheck hd fun a ha => List.mem_singleton.1 ha ▸ he)
  have hinitial := Reachable.initial .empty 32
  have hconcept := hinitial.operation (x := Build.conceptDecl .globalName [] none)
    (.conceptDecl hinitial.wellFormed.globalName (by rintro _ ⟨⟩) (by rintro _ ⟨⟩))
  have hliterals := (hconcept.operation (.intLiteral 5)).operation (.intLiteral 5)
  have hchecks := hcheck ⟨1⟩ ⟨1⟩ (hcheck ⟨1⟩ ⟨0⟩ hliterals rfl rfl) rfl rfl
  exact hcheck ⟨1⟩ ⟨0⟩ hchecks rfl rfl

theorem subsumes_of_equivalent_checkedLiterals :
    checkedLiterals.Reachable ∧ checkedLiterals.contains (⟨2⟩ : ExprHandle) = true ∧
    checkedLiterals.contains (⟨4⟩ : ExprHandle) = true ∧
    checkedLiterals.equivalent ⟨2⟩ ⟨4⟩ = true ∧ checkedLiterals.ChecksAgree ⟨2⟩ ⟨4⟩ ∧
    ((Build.subsumes ⟨2⟩ ⟨4⟩ checkedLiterals).1 = true ∧
      (Build.subsumes ⟨4⟩ ⟨2⟩ checkedLiterals).1 = true) ∧
    ∀ d args args', (checkedLiterals.expr ⟨2⟩).form = .check d args →
      (checkedLiterals.expr ⟨4⟩).form = .check d args' →
        ((Build.subsumes ⟨2⟩ ⟨4⟩ checkedLiterals).1 = true ↔ args = args') ∧
          ((Build.subsumes ⟨4⟩ ⟨2⟩ checkedLiterals).1 = true ↔ args = args') := by
  have hequivalent : checkedLiterals.equivalent ⟨2⟩ ⟨4⟩ = true := by decide +kernel
  have hfirst : (checkedLiterals.expr ⟨2⟩).form = .check ⟨1⟩ [.expr ⟨0⟩] := by decide +kernel
  have hagain : (checkedLiterals.expr ⟨4⟩).form = .check ⟨1⟩ [.expr ⟨0⟩] := by decide +kernel
  have hagree : checkedLiterals.ChecksAgree ⟨2⟩ ⟨4⟩ := checksAgree_of_check hfirst hagain
  obtain ⟨hsubsumes, hchecks⟩ :=
    checkedLiterals_reachable.subsumes_of_equivalent rfl rfl hequivalent
  exact ⟨checkedLiterals_reachable, rfl, rfl, hequivalent, hagree, hsubsumes hagree, hchecks⟩

/-- The checks of the two literals are equivalent, and neither subsumes the other. -/
theorem not_subsumes_of_equivalent_checks :
    checkedLiterals.Reachable ∧ checkedLiterals.contains (⟨2⟩ : ExprHandle) = true ∧
    checkedLiterals.contains (⟨3⟩ : ExprHandle) = true ∧
    checkedLiterals.equivalent ⟨2⟩ ⟨3⟩ = true ∧
    (Build.subsumes ⟨2⟩ ⟨3⟩ checkedLiterals).1 = false ∧
    (Build.subsumes ⟨3⟩ ⟨2⟩ checkedLiterals).1 = false :=
  ⟨checkedLiterals_reachable, rfl, rfl, by decide +kernel, by decide +kernel, by decide +kernel⟩

end Graph
end SemanticCore
