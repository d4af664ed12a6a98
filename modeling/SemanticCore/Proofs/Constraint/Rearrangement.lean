import SemanticCore.Proofs.Action.Reachable
import SemanticCore.Proofs.Constraint.Checks
import SemanticCore.Proofs.Constraint.Equivalence
import SemanticCore.Proofs.Interning.Request

/-!
# Rearranged constraints

The operands of `&&` and `||` may be written in either order, and writing one of them twice says
nothing more.  `Formula.Rearranged` relates formulas that come from each other in this way, in any
number of steps and at any depth.  It compares atoms as they are: a check by its concept and its
arguments, and any other expression by its handle.

Normalizing is a decision procedure for it.  Which operand comes first in a constraint depends on
the handles, and so on what was built before, but for a given graph there is one constraint only
that a formula can be normalized to (`Graph.NormalForm`).  Rearranged formulas have the same normal
form, and the formula of a constraint is a rearrangement of every formula with this normal form.

* `Graph.NormalForm.normalize_eq` — an expression whose normal form is there is normalized to it.
* `Graph.Reachable.normalize_canonical` — **expressions are normalized to one constraint exactly if
  their formulas are rearrangements of each other, whatever happens in between.**
-/

set_option autoImplicit false
namespace SemanticCore

open SemanticCore.Graph

/-- The formulas differ in the order of operands, and in operands that are repeated. -/
inductive Formula.Rearranged : Formula → Formula → Prop
  | refl (φ : Formula) : Rearranged φ φ
  | symm {φ ψ : Formula} (h : Rearranged φ ψ) : Rearranged ψ φ
  | trans {φ ψ χ : Formula} (h : Rearranged φ ψ) (h' : Rearranged ψ χ) : Rearranged φ χ
  | and {φ φ' ψ ψ' : Formula} (h : Rearranged φ φ') (h' : Rearranged ψ ψ') :
    Rearranged (.and φ ψ) (.and φ' ψ')
  | or {φ φ' ψ ψ' : Formula} (h : Rearranged φ φ') (h' : Rearranged ψ ψ') :
    Rearranged (.or φ ψ) (.or φ' ψ')
  | and_comm (φ ψ : Formula) : Rearranged (.and φ ψ) (.and ψ φ)
  | or_comm (φ ψ : Formula) : Rearranged (.or φ ψ) (.or ψ φ)
  | and_self (φ : Formula) : Rearranged (.and φ φ) φ
  | or_self (φ : Formula) : Rearranged (.or φ φ) φ

/-- The constraint that states an atom. -/
def Atom.cons : Atom → ConsForm
  | check d args => .concept d args
  | expr e => .predicate e

namespace Graph

/-- The constraint joins two others.  Two that are the same are not joined, and otherwise the one
with the smaller handle comes first. -/
def Joins (g : Graph) (form : ConsHandle → ConsHandle → ConsForm) (l r c : ConsHandle) : Prop :=
  if l = r then c = l
  else g.contains c = true ∧ g.cons c = if l ≤ r then form l r else form r l

/-- The constraint is the normal form of the formula. -/
def NormalForm (g : Graph) : Formula → ConsHandle → Prop
  | .atom a, c => g.contains c = true ∧ g.cons c = a.cons
  | .and φ ψ, c => ∃ l r, g.NormalForm φ l ∧ g.NormalForm ψ r ∧ g.Joins .conjunction l r c
  | .or φ ψ, c => ∃ l r, g.NormalForm φ l ∧ g.NormalForm ψ r ∧ g.Joins .disjunction l r c

variable {g g' : Graph} {φ ψ : Formula} {l r c d : ConsHandle}

/-! ## Joining constraints -/

section Joins

variable {form : ConsHandle → ConsHandle → ConsForm}

theorem joins_self : g.Joins form l l c ↔ c = l := by
  rw [Joins, if_pos rfl]

theorem Joins.comm (h : g.Joins form l r c) : g.Joins form r l c := by
  unfold Joins at h ⊢
  by_cases heq : l = r
  · rwa [heq] at h ⊢
  · rw [if_neg heq] at h
    rw [if_neg (Ne.symm heq)]
    refine ⟨h.1, h.2.trans ?_⟩
    by_cases hle : l ≤ r
    · have hnle : ¬ r ≤ l := fun hle' => heq (Handle.ext (Nat.le_antisymm hle hle'))
      rw [if_pos hle, if_neg hnle]
    · have hle' : r ≤ l := Nat.le_of_not_le hle
      rw [if_neg hle, if_pos hle']

theorem Joins.contains (h : g.Joins form l r c) (hl : g.contains l = true) :
    g.contains c = true := by
  unfold Joins at h
  split at h
  · exact h ▸ hl
  · exact h.1

theorem Joins.extend (h : g.Joins form l r c) (hext : g.Extends g') : g'.Joins form l r c := by
  unfold Joins at h ⊢
  split
  · next heq => rwa [if_pos heq] at h
  · next hne =>
    rw [if_neg hne] at h
    exact ⟨hext.contains h.1, (hext.cons h.1).trans h.2⟩

/-- There is one constraint that joins two others. -/
theorem Joins.eq (hc : g.Joins form l r c) (hd : g.Joins form l r d) : c = d := by
  unfold Joins at hc hd
  split at hc
  · next heq =>
    rw [if_pos heq] at hd
    exact hc.trans hd.symm
  · next hne =>
    rw [if_neg hne] at hd
    exact cons_injective hc.1 hd.1 (hc.2.trans hd.2.symm)

/-- Joining constraints that are joined already gives the constraint that joins them. -/
theorem Joins.again (h : g.Joins form l r c) :
    (if l = r then pure l else if l ≤ r then Build.constraint (form l r)
      else Build.constraint (form r l)) g = (c, g) := by
  unfold Joins at h
  split at h
  · next heq =>
    rw [if_pos heq, h]
    rfl
  · next hne =>
    rw [if_neg hne]
    split at h
    · next hle =>
      rw [if_pos hle]
      exact constraint_again h.1 h.2
    · next hle =>
      rw [if_neg hle]
      exact constraint_again h.1 h.2

/-- What a constraint states is what a connective of the two that it joins states, rearranged. -/
theorem Joins.rearranged (hg : g.WellFormed) {op : Formula → Formula → Formula}
    (hform : ∀ a b, (form a b).formula g.consFormula = op (g.consFormula a) (g.consFormula b))
    (hcomm : ∀ φ ψ, (op φ ψ).Rearranged (op ψ φ)) (hself : ∀ φ, (op φ φ).Rearranged φ)
    (h : g.Joins form l r c) :
    (op (g.consFormula l) (g.consFormula r)).Rearranged (g.consFormula c) := by
  unfold Joins at h
  split at h
  · next heq =>
    rw [heq, h, heq]
    exact hself _
  · rw [hg.consFormula_eq h.1, h.2]
    split
    · rw [hform]
      exact .refl _
    · rw [hform]
      exact hcomm _ _

end Joins

/-! ## Normal forms -/

theorem NormalForm.contains (h : g.NormalForm φ c) : g.contains c = true := by
  induction φ generalizing c with
  | atom a => exact h.1
  | and φ ψ ih _ | or φ ψ ih _ =>
    obtain ⟨l, r, hl, -, hjoin⟩ := h
    exact hjoin.contains (ih hl)

theorem NormalForm.extend (h : g.NormalForm φ c) (hext : g.Extends g') : g'.NormalForm φ c := by
  induction φ generalizing c with
  | atom a => exact ⟨hext.contains h.1, (hext.cons h.1).trans h.2⟩
  | and φ ψ ihl ihr | or φ ψ ihl ihr =>
    obtain ⟨l, r, hl, hr, hjoin⟩ := h
    exact ⟨l, r, ihl hl, ihr hr, hjoin.extend hext⟩

/-- A formula has one normal form. -/
theorem NormalForm.eq (hc : g.NormalForm φ c) (hd : g.NormalForm φ d) : c = d := by
  induction φ generalizing c d with
  | atom a => exact cons_injective hc.1 hd.1 (hc.2.trans hd.2.symm)
  | and φ ψ ihl ihr | or φ ψ ihl ihr =>
    obtain ⟨l, r, hl, hr, hc⟩ := hc
    obtain ⟨l', r', hl', hr', hd⟩ := hd
    cases ihl hl hl'
    cases ihr hr hr'
    exact hc.eq hd

/-- **Rearranged formulas have the same normal form.** -/
theorem NormalForm.rearranged_iff (h : φ.Rearranged ψ) : g.NormalForm φ c ↔ g.NormalForm ψ c := by
  -- a connective of one formula with itself joins the normal form with itself
  have hself : ∀ {form : ConsHandle → ConsHandle → ConsForm} {φ : Formula} {c : ConsHandle},
      (∃ l r, g.NormalForm φ l ∧ g.NormalForm φ r ∧ g.Joins form l r c) ↔ g.NormalForm φ c := by
    refine ⟨fun ⟨l, r, hl, hr, hjoin⟩ => ?_, fun h => ⟨_, _, h, h, joins_self.2 rfl⟩⟩
    cases hl.eq hr
    rwa [joins_self.1 hjoin]
  induction h generalizing c with
  | refl φ => rfl
  | symm _ ih => exact ih.symm
  | trans _ _ ih ih' => exact ih.trans ih'
  | and _ _ ihl ihr | or _ _ ihl ihr =>
    exact exists_congr fun l => exists_congr fun r => and_congr ihl (and_congr_left' ihr)
  | and_comm φ ψ | or_comm φ ψ =>
    constructor <;> exact fun ⟨l, r, hl, hr, hjoin⟩ => ⟨r, l, hr, hl, hjoin.comm⟩
  | and_self φ | or_self φ => exact hself

/-- The formula of a constraint is a rearrangement of what it is the normal form of. -/
theorem NormalForm.rearranged (hg : g.WellFormed) (h : g.NormalForm φ c) :
    φ.Rearranged (g.consFormula c) := by
  induction φ generalizing c with
  | atom a =>
    rw [hg.consFormula_eq h.1, h.2]
    cases a with
    | check d args | expr e => exact .refl _
  | and φ ψ ihl ihr =>
    obtain ⟨l, r, hl, hr, hjoin⟩ := h
    exact (Formula.Rearranged.and (ihl hl) (ihr hr)).trans
      (hjoin.rearranged hg (fun _ _ => rfl) .and_comm .and_self)
  | or φ ψ ihl ihr =>
    obtain ⟨l, r, hl, hr, hjoin⟩ := h
    exact (Formula.Rearranged.or (ihl hl) (ihr hr)).trans
      (hjoin.rearranged hg (fun _ _ => rfl) .or_comm .or_self)

/-! ## Normalizing -/

end Graph

/-- Entering a connective joins its operands. -/
theorem Build.Yields.joins {g : Graph} (form : ConsHandle → ConsHandle → ConsForm)
    (hfit : ∀ a b, g.contains a = true → g.contains b = true → a < b → (form a b).Fits g)
    {l r : ConsHandle} (hl : g.contains l = true) (hr : g.contains r = true) :
    Yields g (if l = r then Pure.pure l else if l ≤ r then Build.constraint (form l r)
      else Build.constraint (form r l)) fun c g' => g'.Joins form l r c := by
  simp only [Joins]
  split
  · exact .pure rfl
  · next hne =>
    have hne' : l.index ≠ r.index := fun h => hne (Handle.ext h)
    split
    · next hle => exact .constraint (hfit l r hl hr (Nat.lt_of_le_of_ne hle hne'))
    · next hle => exact .constraint (hfit r l hr hl (Nat.lt_of_not_le hle))

theorem Build.normalizes_normalForm : Normalizes Graph.NormalForm where
  extend _ h hc := hc.extend h
  predicate _ he _ := .constraint he
  concept _ hd ha := .constraint ⟨hd, ha⟩
  conjunction _ hl hr := by
    have hjoins := Yields.joins .conjunction (fun _ _ ha hb hlt => ⟨ha, hb, hlt⟩)
      hl.contains hr.contains
    exact ⟨hjoins.1, _, _, hl.extend hjoins.1.extends, hr.extend hjoins.1.extends, hjoins.2⟩
  disjunction _ hl hr := by
    have hjoins := Yields.joins .disjunction (fun _ _ ha hb hlt => ⟨ha, hb, hlt⟩)
      hl.contains hr.contains
    exact ⟨hjoins.1, _, _, hl.extend hjoins.1.extends, hr.extend hjoins.1.extends, hjoins.2⟩

namespace Graph

variable {g : Graph} {a b : ExprHandle}

/-- **An expression whose normal form is there is normalized to it**, and nothing is added. -/
theorem NormalForm.normalize_eq (hg : g.WellFormed) {e : ExprHandle} (he : g.contains e = true)
    {c : ConsHandle} (h : g.NormalForm (g.formula e) c) : Build.normalize e g = (c, g) := by
  obtain ⟨i⟩ := e
  induction i using Nat.strongRecOn generalizing c with
  | ind i ih =>
    have hlt := fun x hx => hg.operand_lt (x := x) he hx
    rw [hg.formula_eq he] at h
    cases hf : (g.expr ⟨i⟩).form with
    | check d args =>
      rw [hf] at h
      rw [hg.normalize_check he hf]
      exact constraint_again h.1 h.2
    | binary op l r =>
      rw [hf] at h hlt
      have hfit := (hg.fits_of_expr he hf).2
      have hl := hlt l List.mem_cons_self
      have hr := hlt r (List.mem_cons_of_mem _ List.mem_cons_self)
      rw [hg.normalize_eq he, Build.normalizeStep, Build.get_bind, hf]
      have hops : ∀ {join : ConsHandle → ConsHandle → Build ConsHandle} {x y : ConsHandle},
          g.NormalForm (g.formula l) x → g.NormalForm (g.formula r) y →
          (do let a ← Build.normalize l; let b ← Build.normalize r; join a b : Build ConsHandle) g =
            join x y g := by
        intro join x y hx hy
        simp only [bind, StateT.bind, ih l.index hl hfit.1 hx, ih r.index hr hfit.2 hy]
      cases op with
      | and | or =>
        obtain ⟨x, y, hx, hy, hjoin⟩ := h
        exact (hops hx hy).trans hjoin.again
      | _ => exact constraint_again h.1 h.2
    | _ =>
      rw [hf] at h
      rw [hg.normalize_eq he, Build.normalizeStep, Build.get_bind, hf]
      exact constraint_again h.1 h.2

/-- **Expressions are normalized to one constraint exactly if their formulas are rearrangements of
each other**, that is if they differ in the order of operands and in repeated operands, or have
other nodes for the same connectives and checks.  Whatever happens between the two calls, the second
one adds nothing then. -/
theorem Reachable.normalize_canonical (hg : g.Reachable) (ha : g.contains a = true) {g' : Graph}
    (hev : (Build.normalize a g).2.Evolves g') (hb : g'.contains b = true) :
    ((g'.formula a).Rearranged (g'.formula b) →
      Build.normalize b g' = ((Build.normalize a g).1, g')) ∧
    ((Build.normalize b g').1 = (Build.normalize a g).1 ↔
      (g'.formula a).Rearranged (g'.formula b)) := by
  have hw := hg.wellFormed
  obtain ⟨hgrow, hnormal⟩ := Build.normalizes_normalForm.yields hw ha
  have hgrow' := hev.grows (hgrow.wellFormed hw)
  have hw' := hgrow'.wellFormed (hgrow.wellFormed hw)
  have hlater := hnormal.extend hgrow'.extends
  rw [← hw.formula_extend (hgrow.trans hgrow').extends ha] at hlater
  have hagain : (g'.formula a).Rearranged (g'.formula b) →
      Build.normalize b g' = ((Build.normalize a g).1, g') := fun h =>
    (NormalForm.rearranged_iff h).1 hlater |>.normalize_eq hw' hb
  refine ⟨hagain, fun heq => ?_, fun h => by rw [hagain h]⟩
  obtain ⟨hgrow₂, hnormal₂⟩ := Build.normalizes_normalForm.yields hw' hb
  have hw₂ := hgrow₂.wellFormed hw'
  rw [heq] at hnormal₂
  exact ((hlater.extend hgrow₂.extends).rearranged hw₂).trans (hnormal₂.rearranged hw₂).symm

/-- The graph of two checks `c` and `d`, its expressions 2 and 3, of `c` again, its expression 4,
and of `c && d`, `d && c` and `(d && c) || (d && c)`, its expressions 5 to 7. -/
def rearrangedChecks : Graph :=
  let build : Build Unit := do
    let _ ← Build.binary .and .bool ⟨2⟩ ⟨3⟩
    let both ← Build.binary .and .bool ⟨3⟩ ⟨4⟩
    let _ ← Build.binary .or .bool both both
  (build checkedLiterals).2

theorem rearrangedChecks_reachable : rearrangedChecks.Reachable := by
  have hbinary : ∀ {g : Graph} (op : BinaryOp) (lhs rhs : ExprHandle), g.Reachable →
      g.contains lhs = true → g.contains rhs = true →
        (Build.binary op .bool lhs rhs g).2.Reachable := fun op _ _ hg hl hr =>
    hg.operation (.binary op hg.wellFormed.contains_bool hl hr)
  have hboth := hbinary .and ⟨2⟩ ⟨3⟩ checkedLiterals_reachable rfl rfl
  have hswapped := hbinary .and ⟨3⟩ ⟨4⟩ hboth rfl rfl
  exact hbinary .or ⟨6⟩ ⟨6⟩ hswapped rfl rfl

/-- The graph after `c && d` has been normalized and a literal has been built. -/
def normalizedChecks : Graph :=
  (Build.intLiteral 7 (Build.normalize ⟨5⟩ rearrangedChecks).2).2

/-- Normalizing `(d && c) || (d && c)` later on finds the constraint of `c && d`. -/
theorem normalize_canonical_rearrangedChecks :
    rearrangedChecks.Reachable ∧ rearrangedChecks.contains (⟨5⟩ : ExprHandle) = true ∧
    (Build.normalize ⟨5⟩ rearrangedChecks).2.Evolves normalizedChecks ∧
    normalizedChecks.contains (⟨7⟩ : ExprHandle) = true ∧
    (normalizedChecks.formula ⟨5⟩).Rearranged (normalizedChecks.formula ⟨7⟩) ∧
    Build.normalize ⟨7⟩ normalizedChecks =
      ((Build.normalize ⟨5⟩ rearrangedChecks).1, normalizedChecks) := by
  have hev : (Build.normalize ⟨5⟩ rearrangedChecks).2.Evolves normalizedChecks :=
    Evolves.refl.operation (.intLiteral 7)
  have hg : normalizedChecks.Reachable :=
    (rearrangedChecks_reachable.operation (.normalize rfl)).operation (.intLiteral 7)
  have hcontains : ∀ i < 8, normalizedChecks.contains (⟨i⟩ : ExprHandle) = true := by
    decide +kernel
  have hformula := fun i (hi : i < 8) => hg.wellFormed.formula_eq (hcontains i hi)
  have hfirst : (normalizedChecks.expr ⟨2⟩).form = .check ⟨1⟩ [.expr ⟨0⟩] := by decide +kernel
  have hagain : (normalizedChecks.expr ⟨4⟩).form = .check ⟨1⟩ [.expr ⟨0⟩] := by decide +kernel
  have hboth : (normalizedChecks.expr ⟨5⟩).form = .binary .and ⟨2⟩ ⟨3⟩ := by decide +kernel
  have hswapped : (normalizedChecks.expr ⟨6⟩).form = .binary .and ⟨3⟩ ⟨4⟩ := by decide +kernel
  have htwice : (normalizedChecks.expr ⟨7⟩).form = .binary .or ⟨6⟩ ⟨6⟩ := by decide +kernel
  have hsame : normalizedChecks.formula ⟨4⟩ = normalizedChecks.formula ⟨2⟩ := by
    rw [hformula 4 (by decide), hformula 2 (by decide), hfirst, hagain]
    rfl
  have hrearranged : (normalizedChecks.formula ⟨5⟩).Rearranged (normalizedChecks.formula ⟨7⟩) := by
    rw [hformula 7 (by decide), htwice, ExprForm.formula, hformula 6 (by decide), hswapped,
      ExprForm.formula, hsame, hformula 5 (by decide), hboth, ExprForm.formula]
    exact .trans (.and_comm _ _) (.symm (.or_self _))
  have hlast := hcontains 7 (by decide)
  exact ⟨rearrangedChecks_reachable, rfl, hev, hlast, hrearranged,
    (rearrangedChecks_reachable.normalize_canonical rfl hev hlast).1 hrearranged⟩

end Graph
end SemanticCore
