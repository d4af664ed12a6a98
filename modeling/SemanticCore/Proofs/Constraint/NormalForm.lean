import SemanticCore.Constraint.Subsumption
import SemanticCore.Proofs.Constraint.Formula
import SemanticCore.Proofs.Interning.Tree

/-!
# Normal forms decide entailment

A constraint in the graph is a formula like the expression it comes from (`Graph.consFormula`).  Its
disjunctive and its conjunctive form are equivalent to it under every assignment, and every member
of a clause is an atom.

Deciding subsumption on these forms is sound because a shared atom carries truth from a clause that
holds to the other clause.  It is complete because a clause of the disjunctive form is itself an
assignment, the one that makes its own atoms true and no others; under it, a clause of the
conjunctive form holds only by sharing an atom.

* `Graph.WellFormed.disjunctiveForm_holds`, `Graph.WellFormed.conjunctiveForm_holds`
* `Graph.WellFormed.consSubsumes_iff` — **one constraint subsumes another exactly if it entails
  it.**
-/

set_option autoImplicit false
namespace SemanticCore

/-! ## Reading a constraint as a formula -/

/-- What a constraint states, given what its operands state. -/
def ConsForm.formula (part : ConsHandle → Formula) : ConsForm → Formula
  | concept d args => .atom (.check d args)
  | predicate e => .atom (.expr e)
  | conjunction lhs rhs => .and (part lhs) (part rhs)
  | disjunction lhs rhs => .or (part lhs) (part rhs)

theorem ConsForm.formula_congr {part part' : ConsHandle → Formula} {f : ConsForm}
    (h : ∀ c ∈ f.operands, part c = part' c) : f.formula part = f.formula part' := by
  cases f with
  | conjunction lhs rhs | disjunction lhs rhs =>
    rw [formula, formula, h lhs List.mem_cons_self,
      h rhs (List.mem_cons_of_mem _ List.mem_cons_self)]
  | _ => rfl

namespace Graph

/-- The formula that a constraint states.  An operand that does not come before its constraint would
count as an atom of its own. -/
def consFormula (g : Graph) (c : ConsHandle) : Formula :=
  (g.cons c).formula fun x => if _ : x < c then g.consFormula x else .atom default
termination_by c.index
decreasing_by assumption

variable {g g' : Graph}

/-- Induction over constraints, from the operands of a connective to the connective. -/
@[elab_as_elim]
theorem WellFormed.cons_induction (hg : g.WellFormed)
    {motive : (c : ConsHandle) → g.contains c = true → Prop}
    (atom : ∀ c hc, (g.cons c).operands = [] → motive c hc)
    (conjunction : ∀ c l r hc hl hr, g.cons c = .conjunction l r → motive l hl → motive r hr →
      motive c hc)
    (disjunction : ∀ c l r hc hl hr, g.cons c = .disjunction l r → motive l hl → motive r hr →
      motive c hc)
    (c : ConsHandle) (hc : g.contains c = true) : motive c hc := by
  obtain ⟨i⟩ := c
  induction i using Nat.strongRecOn with
  | ind i ih =>
    obtain ⟨hfit, hlt⟩ := hg.placed _ hc
    cases hf : g.cons ⟨i⟩ with
    | conjunction l r =>
      rw [hf] at hfit hlt
      exact conjunction _ l r hc hfit.1 hfit.2.1 hf (ih l.index (hlt l List.mem_cons_self) _)
        (ih r.index (hlt r (List.mem_cons_of_mem _ List.mem_cons_self)) _)
    | disjunction l r =>
      rw [hf] at hfit hlt
      exact disjunction _ l r hc hfit.1 hfit.2.1 hf (ih l.index (hlt l List.mem_cons_self) _)
        (ih r.index (hlt r (List.mem_cons_of_mem _ List.mem_cons_self)) _)
    | _ => exact atom _ hc (by rw [hf]; rfl)

theorem WellFormed.consFormula_eq (hg : g.WellFormed) {c : ConsHandle}
    (hc : g.contains c = true) : g.consFormula c = (g.cons c).formula g.consFormula := by
  rw [Graph.consFormula]
  exact ConsForm.formula_congr fun x hx => dif_pos ((hg.placed c hc).2 x hx)

/-- The formula of a constraint stays as it is when the graph is extended. -/
theorem WellFormed.consFormula_extend (hg : g.WellFormed) (h : g.Extends g') {c : ConsHandle}
    (hc : g.contains c = true) : g'.consFormula c = g.consFormula c := by
  obtain ⟨i⟩ := c
  induction i using Nat.strongRecOn with
  | ind i ih =>
    obtain ⟨hfit, hlt⟩ := hg.placed _ hc
    rw [hg.consFormula_eq hc, Graph.consFormula, h.cons hc]
    refine ConsForm.formula_congr fun x hx => ?_
    rw [dif_pos (hlt x hx)]
    exact ih x.index (hlt x hx) (cons_operands_fit hfit x hx)

/-! ## Clauses -/

theorem mem_distribute {as bs : List Clause} {c : Clause} :
    c ∈ distribute as bs ↔ ∃ a ∈ as, ∃ b ∈ bs, a ++ b = c := by
  simp [distribute]

theorem forall_mem_distribute {p : ConsHandle → Prop} {as bs : List Clause}
    (ha : ∀ a ∈ as, ∀ x ∈ a, p x) (hb : ∀ b ∈ bs, ∀ x ∈ b, p x) :
    ∀ c ∈ distribute as bs, ∀ x ∈ c, p x := by
  intro c hc
  obtain ⟨a, hamem, b, hbmem, rfl⟩ := mem_distribute.1 hc
  exact List.forall_mem_append.2 ⟨ha a hamem, hb b hbmem⟩

/-- Some clause of a distribution holds throughout exactly if some clause does on either side. -/
theorem exists_distribute {p : ConsHandle → Prop} {as bs : List Clause} :
    (∃ c ∈ distribute as bs, ∀ x ∈ c, p x) ↔
      (∃ a ∈ as, ∀ x ∈ a, p x) ∧ ∃ b ∈ bs, ∀ x ∈ b, p x := by
  constructor
  · rintro ⟨c, hc, hp⟩
    obtain ⟨a, ha, b, hb, rfl⟩ := mem_distribute.1 hc
    exact ⟨⟨a, ha, fun x hx => hp x (List.mem_append_left _ hx)⟩,
      ⟨b, hb, fun x hx => hp x (List.mem_append_right _ hx)⟩⟩
  · rintro ⟨⟨a, ha, hpa⟩, b, hb, hpb⟩
    refine ⟨a ++ b, mem_distribute.2 ⟨a, ha, b, hb, rfl⟩, fun x hx => ?_⟩
    exact (List.mem_append.1 hx).elim (hpa x) (hpb x)

/-- Every clause of a distribution holds somewhere exactly if every clause does on one side. -/
theorem forall_distribute {p : ConsHandle → Prop} {as bs : List Clause} :
    (∀ c ∈ distribute as bs, ∃ x ∈ c, p x) ↔
      (∀ a ∈ as, ∃ x ∈ a, p x) ∨ ∀ b ∈ bs, ∃ x ∈ b, p x := by
  constructor
  · intro h
    by_contra hno
    obtain ⟨hna, hnb⟩ := not_or.1 hno
    obtain ⟨a, ha, hpa⟩ := Classical.not_forall.1 hna |>.imp fun a => Classical.not_imp.1
    obtain ⟨b, hb, hpb⟩ := Classical.not_forall.1 hnb |>.imp fun b => Classical.not_imp.1
    obtain ⟨x, hx, hp⟩ := h (a ++ b) (mem_distribute.2 ⟨a, ha, b, hb, rfl⟩)
    rcases List.mem_append.1 hx with hx | hx
    · exact hpa ⟨x, hx, hp⟩
    · exact hpb ⟨x, hx, hp⟩
  · rintro (h | h) c hc
    · obtain ⟨a, ha, b, -, rfl⟩ := mem_distribute.1 hc
      obtain ⟨x, hx, hp⟩ := h a ha
      exact ⟨x, List.mem_append_left _ hx, hp⟩
    · obtain ⟨a, -, b, hb, rfl⟩ := mem_distribute.1 hc
      obtain ⟨x, hx, hp⟩ := h b hb
      exact ⟨x, List.mem_append_right _ hx, hp⟩

/-! ## The forms of a constraint, by its own form -/

theorem WellFormed.operands_lt (hg : g.WellFormed) {c l r : ConsHandle}
    (hc : g.contains c = true) (hops : (g.cons c).operands = [l, r]) : l < c ∧ r < c := by
  have hlt := (hg.placed c hc).2
  rw [hops] at hlt
  exact ⟨hlt l List.mem_cons_self, hlt r (List.mem_cons_of_mem _ List.mem_cons_self)⟩

section Forms

variable {c l r : ConsHandle}

theorem disjunctiveForm_atom (h : (g.cons c).operands = []) : g.disjunctiveForm c = [[c]] := by
  rw [disjunctiveForm]
  cases hf : g.cons c with
  | conjunction l r | disjunction l r => rw [hf] at h; cases h
  | _ => rfl

theorem conjunctiveForm_atom (h : (g.cons c).operands = []) : g.conjunctiveForm c = [[c]] := by
  rw [conjunctiveForm]
  cases hf : g.cons c with
  | conjunction l r | disjunction l r => rw [hf] at h; cases h
  | _ => rfl

variable (hg : g.WellFormed) (hc : g.contains c = true)
include hg hc

theorem WellFormed.disjunctiveForm_conjunction (hf : g.cons c = .conjunction l r) :
    g.disjunctiveForm c = distribute (g.disjunctiveForm l) (g.disjunctiveForm r) := by
  rw [disjunctiveForm, hf]
  exact dif_pos (hg.operands_lt hc (by rw [hf]; rfl))

theorem WellFormed.disjunctiveForm_disjunction (hf : g.cons c = .disjunction l r) :
    g.disjunctiveForm c = g.disjunctiveForm l ++ g.disjunctiveForm r := by
  rw [disjunctiveForm, hf]
  exact dif_pos (hg.operands_lt hc (by rw [hf]; rfl))

theorem WellFormed.conjunctiveForm_conjunction (hf : g.cons c = .conjunction l r) :
    g.conjunctiveForm c = g.conjunctiveForm l ++ g.conjunctiveForm r := by
  rw [conjunctiveForm, hf]
  exact dif_pos (hg.operands_lt hc (by rw [hf]; rfl))

theorem WellFormed.conjunctiveForm_disjunction (hf : g.cons c = .disjunction l r) :
    g.conjunctiveForm c = distribute (g.conjunctiveForm l) (g.conjunctiveForm r) := by
  rw [conjunctiveForm, hf]
  exact dif_pos (hg.operands_lt hc (by rw [hf]; rfl))

end Forms

/-- **A constraint holds exactly if some clause of its disjunctive form holds throughout.** -/
theorem WellFormed.disjunctiveForm_holds (hg : g.WellFormed) (v : Atom → Prop) {c : ConsHandle}
    (hc : g.contains c = true) :
    (g.consFormula c).Holds v ↔
      ∃ as ∈ g.disjunctiveForm c, ∀ a ∈ as, (g.consFormula a).Holds v := by
  induction c, hc using hg.cons_induction with
  | atom c hc hops => simp [disjunctiveForm_atom hops]
  | conjunction c l r hc hl hr hf ihl ihr =>
    rw [hg.disjunctiveForm_conjunction hc hf, hg.consFormula_eq hc, hf, exists_distribute, ← ihl,
      ← ihr]
    rfl
  | disjunction c l r hc hl hr hf ihl ihr =>
    rw [hg.disjunctiveForm_disjunction hc hf, hg.consFormula_eq hc, hf]
    simp only [List.mem_append, or_and_right, exists_or, ← ihl, ← ihr]
    rfl

/-- **A constraint holds exactly if every clause of its conjunctive form holds somewhere.** -/
theorem WellFormed.conjunctiveForm_holds (hg : g.WellFormed) (v : Atom → Prop) {c : ConsHandle}
    (hc : g.contains c = true) :
    (g.consFormula c).Holds v ↔
      ∀ bs ∈ g.conjunctiveForm c, ∃ b ∈ bs, (g.consFormula b).Holds v := by
  induction c, hc using hg.cons_induction with
  | atom c hc hops => simp [conjunctiveForm_atom hops]
  | conjunction c l r hc hl hr hf ihl ihr =>
    rw [hg.conjunctiveForm_conjunction hc hf, hg.consFormula_eq hc, hf]
    simp only [List.mem_append, or_imp, forall_and, ← ihl, ← ihr]
    rfl
  | disjunction c l r hc hl hr hf ihl ihr =>
    rw [hg.conjunctiveForm_disjunction hc hf, hg.consFormula_eq hc, hf, forall_distribute, ← ihl,
      ← ihr]
    rfl

/-- The constraint is an atom. -/
def IsAtom (g : Graph) (c : ConsHandle) : Prop :=
  g.contains c = true ∧ (g.cons c).operands = []

theorem WellFormed.disjunctiveForm_atoms (hg : g.WellFormed) {c : ConsHandle}
    (hc : g.contains c = true) : ∀ as ∈ g.disjunctiveForm c, ∀ a ∈ as, g.IsAtom a := by
  induction c, hc using hg.cons_induction with
  | atom c hc hops => simpa [disjunctiveForm_atom hops, IsAtom, hops] using hc
  | conjunction c l r hc hl hr hf ihl ihr =>
    rw [hg.disjunctiveForm_conjunction hc hf]
    exact forall_mem_distribute ihl ihr
  | disjunction c l r hc hl hr hf ihl ihr =>
    rw [hg.disjunctiveForm_disjunction hc hf]
    exact List.forall_mem_append.2 ⟨ihl, ihr⟩

theorem WellFormed.conjunctiveForm_atoms (hg : g.WellFormed) {c : ConsHandle}
    (hc : g.contains c = true) : ∀ bs ∈ g.conjunctiveForm c, ∀ b ∈ bs, g.IsAtom b := by
  induction c, hc using hg.cons_induction with
  | atom c hc hops => simpa [conjunctiveForm_atom hops, IsAtom, hops] using hc
  | conjunction c l r hc hl hr hf ihl ihr =>
    rw [hg.conjunctiveForm_conjunction hc hf]
    exact List.forall_mem_append.2 ⟨ihl, ihr⟩
  | disjunction c l r hc hl hr hf ihl ihr =>
    rw [hg.conjunctiveForm_disjunction hc hf]
    exact forall_mem_distribute ihl ihr

/-! ## Sharing an atom -/

theorem shareAtom_iff {as bs : Clause} :
    g.shareAtom as bs = true ↔ ∃ a ∈ as, ∃ b ∈ bs, g.sameAtom a b = true := by
  simp [shareAtom]

/-- The same atom has the same value. -/
theorem WellFormed.sameAtom_holds (hg : g.WellFormed) {v : Atom → Prop} (hv : g.Respects v)
    {a b : ConsHandle} (ha : g.contains a = true) (hb : g.contains b = true)
    (h : g.sameAtom a b = true) (hva : (g.consFormula a).Holds v) :
    (g.consFormula b).Holds v := by
  rw [sameAtom, Bool.or_eq_true, beq_iff_eq] at h
  rcases h with rfl | h
  · exact hva
  · have hfa := (hg.placed a ha).1
    have hfb := (hg.placed b hb).1
    rw [hg.consFormula_eq ha] at hva
    rw [hg.consFormula_eq hb]
    split at h
    · next x y hx hy =>
      rw [hx] at hfa hva
      rw [hy] at hfb ⊢
      exact (hv x y hfa hfb h).1 hva
    · cases h

/-- A constraint is the given atom, up to equivalence. -/
def Denotes (g : Graph) (c : ConsHandle) : Atom → Prop
  | .check d args => g.cons c = .concept d args
  | .expr e => ∃ x, g.cons c = .predicate x ∧ g.equivalent x e = true

/-- The assignment that makes the atoms of a clause true and no others. -/
def clauseAssignment (g : Graph) (as : Clause) (x : Atom) : Prop :=
  ∃ a ∈ as, g.Denotes a x

theorem WellFormed.respects_clauseAssignment (hg : g.WellFormed) {as : Clause}
    (has : ∀ a ∈ as, g.IsAtom a) : g.Respects (g.clauseAssignment as) := by
  have key : ∀ x y : ExprHandle, g.contains x = true → g.contains y = true →
      g.equivalent x y = true → g.clauseAssignment as (.expr x) →
        g.clauseAssignment as (.expr y) := by
    rintro x y hx hy hxy ⟨a, ha, z, hz, hzx⟩
    have hz' := (hg.placed a (has a ha).1).1
    rw [hz] at hz'
    exact ⟨a, ha, z, hz, hg.equivalent_trans hz' hx hy hzx hxy⟩
  exact fun x y hx hy hxy => ⟨key x y hx hy hxy, key y x hy hx (hg.equivalent_symm hx hy hxy)⟩

/-- A clause holds under its own assignment. -/
theorem WellFormed.clauseAssignment_holds (hg : g.WellFormed) {as : Clause}
    (has : ∀ a ∈ as, g.IsAtom a) :
    ∀ a ∈ as, (g.consFormula a).Holds (g.clauseAssignment as) := by
  intro a ha
  obtain ⟨hc, hops⟩ := has a ha
  rw [hg.consFormula_eq hc]
  cases hf : g.cons a with
  | concept d args => exact ⟨a, ha, hf⟩
  | predicate e => exact ⟨a, ha, e, hf, g.equivalent_refl e⟩
  | _ => rw [hf] at hops; cases hops

/-- An atom that holds under the assignment of a clause is an atom of the clause. -/
theorem WellFormed.sameAtom_of_holds (hg : g.WellFormed) {as : Clause} {b : ConsHandle}
    (has : ∀ a ∈ as, g.IsAtom a) (hb : g.IsAtom b)
    (h : (g.consFormula b).Holds (g.clauseAssignment as)) :
    ∃ a ∈ as, g.sameAtom a b = true := by
  obtain ⟨hc, hops⟩ := hb
  rw [hg.consFormula_eq hc] at h
  cases hf : g.cons b with
  | concept d args =>
    rw [hf] at h
    obtain ⟨a, ha, hden⟩ := h
    have hab : a = b := cons_injective (has a ha).1 hc (hden.trans hf.symm)
    exact ⟨a, ha, by rw [hab, sameAtom, beq_self_eq_true, Bool.true_or]⟩
  | predicate e =>
    rw [hf] at h
    obtain ⟨a, ha, x, hx, hxe⟩ := h
    refine ⟨a, ha, ?_⟩
    rw [sameAtom, hx, hf]
    exact Bool.or_eq_true_iff.2 (.inr hxe)
  | _ => rw [hf] at hops; cases hops

/-! ## Subsumption -/

/-- **One constraint subsumes another exactly if it entails it.** -/
theorem WellFormed.consSubsumes_iff (hg : g.WellFormed) {p q : ConsHandle}
    (hp : g.contains p = true) (hq : g.contains q = true) :
    g.consSubsumes p q = true ↔
      ∀ v, g.Respects v → (g.consFormula p).Holds v → (g.consFormula q).Holds v := by
  rw [consSubsumes, Bool.or_eq_true, beq_iff_eq, List.all_eq_true]
  simp only [List.all_eq_true, shareAtom_iff]
  constructor
  · rintro (rfl | h) v hv hvp
    · exact hvp
    · rw [hg.disjunctiveForm_holds v hp] at hvp
      rw [hg.conjunctiveForm_holds v hq]
      obtain ⟨as, has, hall⟩ := hvp
      intro bs hbs
      obtain ⟨a, ha, b, hb, hab⟩ := h as has bs hbs
      have hca := (hg.disjunctiveForm_atoms hp as has a ha).1
      have hcb := (hg.conjunctiveForm_atoms hq bs hbs b hb).1
      exact ⟨b, hb, hg.sameAtom_holds hv hca hcb hab (hall a ha)⟩
  · -- each clause of the first constraint is tried as an assignment
    intro h
    refine .inr fun as has bs hbs => ?_
    have hatoms := hg.disjunctiveForm_atoms hp as has
    have hvp : (g.consFormula p).Holds (g.clauseAssignment as) :=
      (hg.disjunctiveForm_holds _ hp).2 ⟨as, has, hg.clauseAssignment_holds hatoms⟩
    have hvq := h _ (hg.respects_clauseAssignment hatoms) hvp
    obtain ⟨b, hb, hvb⟩ := (hg.conjunctiveForm_holds _ hq).1 hvq bs hbs
    obtain ⟨a, ha, hab⟩ := hg.sameAtom_of_holds hatoms (hg.conjunctiveForm_atoms hq bs hbs b hb) hvb
    exact ⟨a, ha, b, hb, hab⟩

end Graph
end SemanticCore
