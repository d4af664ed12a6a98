import SemanticCore.Proofs.Expr.Erasure

/-!
# Constraints as formulas

A constraint expression is read as a propositional formula: `&&` and `||` are the connectives and
every other expression is an atom.  A concept check is the atom of its concept and its arguments,
and any other atom is the expression itself, where equivalent expressions count as one atom:
a truth assignment has to give them the same value (`Graph.Respects`).

`Graph.Entails` is entailment between two expressions of a graph.  It looks at expressions only, so
it does not change when anything is added (`Graph.WellFormed.entails_extend`), and it is the same in
two graphs that have the same expressions and requirements (`Graph.entails_congr`).
-/

set_option autoImplicit false
namespace SemanticCore

/-- What has a truth value in a constraint. -/
inductive Atom where
  /-- A concept applied to arguments. -/
  | check (concept : DeclHandle) (args : List Term)
  /-- Any other expression. -/
  | expr (e : ExprHandle)
deriving DecidableEq, Inhabited

/-- A propositional formula over the atoms of constraints. -/
inductive Formula where
  | atom (a : Atom)
  | and (lhs rhs : Formula)
  | or (lhs rhs : Formula)
deriving Inhabited

namespace Formula

/-- The formula holds under a truth assignment. -/
def Holds (v : Atom → Prop) : Formula → Prop
  | atom a => v a
  | and l r => l.Holds v ∧ r.Holds v
  | or l r => l.Holds v ∨ r.Holds v

/-- Every atom of the formula satisfies the predicate. -/
def All (p : Atom → Prop) : Formula → Prop
  | atom a => p a
  | and l r | or l r => l.All p ∧ r.All p

/-- Assignments that agree on the atoms of a formula agree on the formula. -/
theorem All.holds_iff {v w : Atom → Prop} {f : Formula} (h : f.All fun a => v a ↔ w a) :
    f.Holds v ↔ f.Holds w := by
  induction f with
  | atom a => exact h
  | and l r ihl ihr => exact and_congr (ihl h.1) (ihr h.2)
  | or l r ihl ihr => exact or_congr (ihl h.1) (ihr h.2)

theorem All.mono {p q : Atom → Prop} (hpq : ∀ a, p a → q a) {f : Formula} (h : f.All p) :
    f.All q := by
  induction f with
  | atom a => exact hpq a h
  | and l r ihl ihr => exact ⟨ihl h.1, ihr h.2⟩
  | or l r ihl ihr => exact ⟨ihl h.1, ihr h.2⟩

/-- The atoms of the formula. -/
def atoms : Formula → List Atom
  | atom a => [a]
  | and l r | or l r => l.atoms ++ r.atoms

theorem all_atoms (f : Formula) : f.All (· ∈ f.atoms) := by
  induction f with
  | atom a => exact List.mem_cons_self
  | and l r ihl ihr | or l r ihl ihr =>
    exact ⟨ihl.mono fun _ => List.mem_append_left _, ihr.mono fun _ => List.mem_append_right _⟩

end Formula

/-! ## Reading an expression as a formula -/

/-- What an expression states, given what the expressions inside it state; `atom` is the atom that
the expression is if it is no connective and no check. -/
def ExprForm.formula (part : ExprHandle → Formula) (atom : Atom) : ExprForm → Formula
  | binary .and lhs rhs => .and (part lhs) (part rhs)
  | binary .or lhs rhs => .or (part lhs) (part rhs)
  | check concept args => .atom (.check concept args)
  | _ => .atom atom

theorem ExprForm.formula_congr {g : Graph} {part part' : ExprHandle → Formula} {atom : Atom}
    {f : ExprForm} (h : ∀ x ∈ f.operands g, part x = part' x) :
    f.formula part atom = f.formula part' atom := by
  cases f with
  | binary op lhs rhs =>
    have hl := h lhs List.mem_cons_self
    have hr := h rhs (List.mem_cons_of_mem _ List.mem_cons_self)
    cases op with
    | and | or => rw [formula, formula, hl, hr]
    | _ => rfl
  | _ => rfl

namespace Graph

/-- The formula that an expression states.  An operand that does not come before its expression
would count as an atom of its own. -/
def formula (g : Graph) (e : ExprHandle) : Formula :=
  (g.expr e).form.formula (fun x => if _ : x < e then g.formula x else .atom (.expr x)) (.expr e)
termination_by e.index
decreasing_by assumption

/-- A truth assignment gives equivalent expressions the same value. -/
def Respects (g : Graph) (v : Atom → Prop) : Prop :=
  ∀ x y : ExprHandle, g.contains x = true → g.contains y = true → g.equivalent x y = true →
    (v (.expr x) ↔ v (.expr y))

/-- Every truth assignment to the atoms that makes the first expression true makes the second one
true. -/
def Entails (g : Graph) (p q : ExprHandle) : Prop :=
  ∀ v, g.Respects v → (g.formula p).Holds v → (g.formula q).Holds v

/-- The expression that an atom is, if it is one, is in the graph. -/
def ContainsAtom (g : Graph) : Atom → Prop
  | .check _ _ => True
  | .expr e => g.contains e = true

variable {g g' : Graph}

theorem WellFormed.formula_eq (hg : g.WellFormed) {e : ExprHandle} (he : g.contains e = true) :
    g.formula e = (g.expr e).form.formula g.formula (.expr e) := by
  rw [Graph.formula]
  exact ExprForm.formula_congr fun x hx => dif_pos (hg.operand_lt he hx)

/-- The formula of an expression stays as it is when the graph is extended. -/
theorem WellFormed.formula_extend (hg : g.WellFormed) (h : g.Extends g') {e : ExprHandle}
    (he : g.contains e = true) : g'.formula e = g.formula e := by
  obtain ⟨i⟩ := e
  induction i using Nat.strongRecOn with
  | ind i ih =>
    rw [hg.formula_eq he, Graph.formula, h.expr he]
    refine ExprForm.formula_congr (g := g) fun x hx => ?_
    rw [dif_pos (hg.operand_lt he hx)]
    exact ih x.index (hg.operand_lt he hx) (hg.contains_operand he hx)

/-- The atoms of a formula that an expression states are in the graph. -/
theorem WellFormed.formula_all (hg : g.WellFormed) {e : ExprHandle} (he : g.contains e = true) :
    (g.formula e).All g.ContainsAtom := by
  obtain ⟨i⟩ := e
  induction i using Nat.strongRecOn with
  | ind i ih =>
    rw [hg.formula_eq he]
    have hpart : ∀ x ∈ (g.expr ⟨i⟩).form.operands g, (g.formula x).All g.ContainsAtom :=
      fun x hx => ih x.index (hg.operand_lt he hx) (hg.contains_operand he hx)
    cases hf : (g.expr ⟨i⟩).form with
    | binary op lhs rhs =>
      rw [hf] at hpart
      have hl := hpart lhs List.mem_cons_self
      have hr := hpart rhs (List.mem_cons_of_mem _ List.mem_cons_self)
      cases op with
      | and | or => exact ⟨hl, hr⟩
      | _ => exact he
    | check c args => trivial
    | _ => exact he

/-! ## Entailment -/

/-- Equivalence of expressions of the smaller graph can be decided in either. -/
theorem WellFormed.respects_of_extends (hg : g.WellFormed) (hg' : g'.WellFormed)
    (h : g.Extends g') {v : Atom → Prop} (hv : g'.Respects v) : g.Respects v :=
  fun x y hx hy hxy => hv x y (h.contains hx) (h.contains hy)
    (by rwa [hg.equivalent_extend hg' h hx hy])

/-- The assignment to the atoms of an extension that gives an expression the value of the
expressions of the smaller graph that it is equivalent to. -/
def extendAssignment (g g' : Graph) (v : Atom → Prop) : Atom → Prop
  | .check c args => v (.check c args)
  | .expr y => ∃ x, g.contains x = true ∧ g'.equivalent x y = true ∧ v (.expr x)

theorem WellFormed.respects_extendAssignment (hg' : g'.WellFormed) (h : g.Extends g')
    (v : Atom → Prop) : g'.Respects (extendAssignment g g' v) := by
  intro x y hx hy hxy
  constructor
  · rintro ⟨z, hz, hzx, hv⟩
    exact ⟨z, hz, hg'.equivalent_trans (h.contains hz) hx hy hzx hxy, hv⟩
  · rintro ⟨z, hz, hzy, hv⟩
    exact ⟨z, hz, hg'.equivalent_trans (h.contains hz) hy hx hzy (hg'.equivalent_symm hx hy hxy),
      hv⟩

theorem WellFormed.extendAssignment_iff (hg : g.WellFormed) (hg' : g'.WellFormed)
    (h : g.Extends g') {v : Atom → Prop} (hv : g.Respects v) {a : Atom} (ha : g.ContainsAtom a) :
    extendAssignment g g' v a ↔ v a := by
  cases a with
  | check c args => exact Iff.rfl
  | expr y =>
    constructor
    · rintro ⟨x, hx, hxy, hvx⟩
      rw [hg.equivalent_extend hg' h hx ha] at hxy
      exact (hv x y hx ha hxy).1 hvx
    · exact fun hvy => ⟨y, ha, g'.equivalent_refl y, hvy⟩

/-- **Entailment stays as it is when the graph is extended.** -/
theorem WellFormed.entails_extend (hg : g.WellFormed) (hg' : g'.WellFormed) (h : g.Extends g')
    {p q : ExprHandle} (hp : g.contains p = true) (hq : g.contains q = true) :
    g'.Entails p q ↔ g.Entails p q := by
  rw [Entails, Entails, hg.formula_extend h hp, hg.formula_extend h hq]
  constructor
  · intro hent v hv hP
    have hiff : ∀ {e : ExprHandle}, g.contains e = true →
        ((g.formula e).Holds (extendAssignment g g' v) ↔ (g.formula e).Holds v) := fun he =>
      ((hg.formula_all he).mono fun a ha => hg.extendAssignment_iff hg' h hv ha).holds_iff
    exact (hiff hq).1 (hent _ (hg'.respects_extendAssignment h v) ((hiff hp).2 hP))
  · exact fun hent v hv => hent v (hg.respects_of_extends hg' h hv)

theorem entails_refl (g : Graph) (p : ExprHandle) : g.Entails p p :=
  fun _ _ h => h

theorem Entails.trans {p q r : ExprHandle} (h : g.Entails p q) (h' : g.Entails q r) :
    g.Entails p r :=
  fun v hv hp => h' v hv (h v hv hp)

/-- **Entailment is the same in graphs that have the same expressions and requirements.** -/
theorem entails_congr (he : g'.exprs = g.exprs) (hr : g'.reqs = g.reqs) (p q : ExprHandle) :
    g'.Entails p q ↔ g.Entails p q := by
  have hexpr : g'.expr = g.expr := by funext e; rw [Graph.expr, Graph.expr, he]
  have hreq : g'.req = g.req := by funext r; rw [Graph.req, Graph.req, hr]
  have hformula : ∀ e, g'.formula e = g.formula e := by
    rintro ⟨i⟩
    induction i using Nat.strongRecOn with
    | ind i ih =>
      rw [Graph.formula, Graph.formula, hexpr]
      refine ExprForm.formula_congr (g := g) fun x _ => ?_
      by_cases hx : x < (⟨i⟩ : ExprHandle)
      · rw [dif_pos hx, dif_pos hx]
        exact ih x.index hx
      · rw [dif_neg hx, dif_neg hx]
  have hcontains : ∀ e : ExprHandle, g'.contains e = g.contains e := fun e => by
    rw [contains, contains, count, count, he]
  simp only [Entails, Respects, hformula, equivalent_congr hexpr hreq, hcontains]

end Graph
end SemanticCore
