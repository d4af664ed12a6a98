import SemanticCore.Proofs.Action.Reachable
import SemanticCore.Proofs.Graph.Traversal

/-!
# What constraints admit

Inside a constrained template an expression is taken for granted if the constraints vouch for it.
The search for an admitting expression walks the normalized constraint, whose operands have been put
in order and merged where they are equal, and not the expression that was written.  Here is what it
means for the latter.

A predicate offers itself and, if it is a requires-expression, the expressions that its requirements
are about (`Graph.Offers`).  What is admitted is offered by a predicate that the constraint entails
(`Graph.Guarantees`): under every truth assignment that makes the constraint true, the predicate is
true.  This excludes everything that is stated in one branch of a disjunction only.  On the other
hand, what is offered by an operand that is reached through `&&` only (`Graph.Conjunct`) is found.

* `Graph.Conjunct.yields_normalize` — normalizing loses no such operand.
* `Graph.WellFormed.holds_of_mem_conjuncts` — the constraint entails all operands that the search
  looks at.
* `Graph.Reachable.admission_spec` — **an expression is admitted only if it is guaranteed, and it is
  admitted if some operand under `&&` offers it.**
-/

set_option autoImplicit false
namespace SemanticCore

open SemanticCore.Graph

variable {g g' : Graph} {C e p r x : ExprHandle}

/-! ## Atoms of formulas -/

namespace Formula

theorem All.holds {v : Atom → Prop} {f : Formula} (h : f.All v) : f.Holds v := by
  induction f with
  | atom a => exact h
  | and l r ihl ihr => exact ⟨ihl h.1, ihr h.2⟩
  | or l r ihl ihr => exact .inl (ihl h.1)

theorem All.of_mem {P : Atom → Prop} {f : Formula} (h : f.All P) {a : Atom} (ha : a ∈ f.atoms) :
    P a := by
  induction f with
  | atom b => exact List.mem_singleton.1 ha ▸ h
  | and l r ihl ihr | or l r ihl ihr => exact (List.mem_append.1 ha).elim (ihl h.1) (ihr h.2)

/-- An atom that holds whenever the formula does occurs in the formula. -/
theorem mem_atoms_of_forced {f : Formula} {a : Atom} (h : ∀ v, f.Holds v → v a) : a ∈ f.atoms :=
  h (· ∈ f.atoms) f.all_atoms.holds

end Formula

/-- The expression is no connective and no check, so constraints take it as it is. -/
def ExprForm.isPredicate : ExprForm → Bool
  | binary .and _ _ | binary .or _ _ | check _ _ => false
  | _ => true

theorem ExprForm.formula_of_isPredicate {f : ExprForm} (h : f.isPredicate = true)
    (part : ExprHandle → Formula) (a : Atom) : f.formula part a = .atom a := by
  cases f with
  | binary op l r => cases op <;> first | rfl | cases h
  | check d args => cases h
  | _ => rfl

namespace Graph

/-- The operands of an expression that are reached through `&&` only. -/
inductive Conjunct (g : Graph) : ExprHandle → ExprHandle → Prop
  | self (x : ExprHandle) : Conjunct g x x
  | left {c l r x : ExprHandle} (hf : (g.expr c).form = .binary .and l r) (h : Conjunct g l x) :
    Conjunct g c x
  | right {c l r x : ExprHandle} (hf : (g.expr c).form = .binary .and l r) (h : Conjunct g r x) :
    Conjunct g c x

/-- What a predicate vouches for: itself, and what it requires. -/
inductive Offers (g : Graph) (p : ExprHandle) : ExprHandle → Prop
  | itself (hp : (g.expr p).form.isPredicate = true) : Offers g p p
  | requirement {tparams params : List DeclHandle} {reqs : List ReqHandle} {q : ReqHandle}
    {x : ExprHandle} (hf : (g.expr p).form = .requires tparams params reqs) (hq : q ∈ reqs)
    (hx : (g.req q).expr? = some x) : Offers g p x

/-- The predicate is true under every truth assignment that makes the constraint true. -/
def Forces (g : Graph) (C p : ExprHandle) : Prop :=
  ∀ v, (g.formula C).Holds v → v (.expr p)

/-- The constraint entails a predicate that offers the expression. -/
def Guarantees (g : Graph) (C r : ExprHandle) : Prop :=
  ∃ p, g.Forces C p ∧ g.Offers p r

/-! ## Predicates -/

theorem Conjunct.contains (hg : g.WellFormed) (hC : g.contains C = true) (h : g.Conjunct C x) :
    g.contains x = true := by
  induction h with
  | self x => exact hC
  | left hf _ ih => exact ih (hg.fits_of_expr hC hf).2.1
  | right hf _ ih => exact ih (hg.fits_of_expr hC hf).2.2

theorem Offers.isPredicate (h : g.Offers p x) : (g.expr p).form.isPredicate = true := by
  cases h with
  | itself hp => exact hp
  | requirement hf hq hx => rw [hf]; rfl

theorem Offers.contains (hg : g.WellFormed) (hp : g.contains p = true) (h : g.Offers p x) :
    g.contains x = true := by
  cases h with
  | itself _ => exact hp
  | requirement hf hq hx =>
    refine hg.contains_operand hp ?_
    rw [hf]
    exact List.mem_filterMap.2 ⟨_, hq, hx⟩

/-- What a predicate offers stays the same when the graph is extended. -/
theorem WellFormed.offers_extend (hg : g.WellFormed) (h : g.Extends g') (hp : g.contains p = true) :
    g'.Offers p x ↔ g.Offers p x := by
  have hreq : ∀ {tparams params : List DeclHandle} {reqs : List ReqHandle} {q : ReqHandle},
      (g.expr p).form = .requires tparams params reqs → q ∈ reqs → g'.req q = g.req q :=
    fun hf hq => h.req ((hg.fits_of_expr hp hf).2.2.2.2 _ hq)
  constructor
  · rintro (hpred | ⟨hf, hq, hx⟩)
    · exact .itself (h.expr hp ▸ hpred)
    · rw [h.expr hp] at hf
      exact .requirement hf hq (hreq hf hq ▸ hx)
  · rintro (hpred | ⟨hf, hq, hx⟩)
    · exact .itself ((h.expr hp).symm ▸ hpred)
    · exact .requirement (h.expr hp ▸ hf) hq ((hreq hf hq).symm ▸ hx)

/-- The atoms of a constraint that are expressions are predicates. -/
theorem WellFormed.formula_all_predicates (hg : g.WellFormed) (he : g.contains e = true) :
    (g.formula e).All fun a => ∀ x, a = .expr x → (g.expr x).form.isPredicate = true := by
  obtain ⟨i⟩ := e
  induction i using Nat.strongRecOn with
  | ind i ih =>
    rw [hg.formula_eq he]
    have hpart : ∀ x ∈ (g.expr ⟨i⟩).form.operands g, (g.formula x).All fun a =>
        ∀ y, a = .expr y → (g.expr y).form.isPredicate = true :=
      fun x hx => ih x.index (hg.operand_lt he hx) (hg.contains_operand he hx)
    cases hf : (g.expr ⟨i⟩).form with
    | binary op lhs rhs =>
      rw [hf] at hpart
      have hl := hpart lhs List.mem_cons_self
      have hr := hpart rhs (List.mem_cons_of_mem _ List.mem_cons_self)
      cases op with
      | and | or => exact ⟨hl, hr⟩
      | _ => rintro x ⟨⟩; rw [hf]; rfl
    | check c args => rintro x ⟨⟩
    | _ => rintro x ⟨⟩; rw [hf]; rfl

theorem Forces.contains (hg : g.WellFormed) (hC : g.contains C = true) (h : g.Forces C p) :
    g.contains p = true :=
  (hg.formula_all hC).of_mem (Formula.mem_atoms_of_forced h)

theorem Forces.isPredicate (hg : g.WellFormed) (hC : g.contains C = true) (h : g.Forces C p) :
    (g.expr p).form.isPredicate = true :=
  (hg.formula_all_predicates hC).of_mem (Formula.mem_atoms_of_forced h) p rfl

/-- What a disjunction guarantees is guaranteed by either branch. -/
theorem Guarantees.branches (hg : g.WellFormed) (hC : g.contains C = true) {lhs rhs : ExprHandle}
    (hf : (g.expr C).form = .binary .or lhs rhs) (h : g.Guarantees C x) :
    g.Guarantees lhs x ∧ g.Guarantees rhs x := by
  obtain ⟨p, hforces, hoffers⟩ := h
  have hformula : g.formula C = .or (g.formula lhs) (g.formula rhs) := by
    rw [hg.formula_eq hC, hf, ExprForm.formula]
  have hforces : ∀ v, (g.formula lhs).Holds v ∨ (g.formula rhs).Holds v → v (.expr p) :=
    fun v hv => hforces v (hformula ▸ hv)
  exact ⟨⟨p, fun v hv => hforces v (.inl hv), hoffers⟩,
    ⟨p, fun v hv => hforces v (.inr hv), hoffers⟩⟩

/-! ## The operands that the search looks at -/

theorem WellFormed.conjuncts_conjunction (hg : g.WellFormed) {c l r : ConsHandle}
    (hc : g.contains c = true) (hf : g.cons c = .conjunction l r) :
    g.conjuncts c = g.conjuncts l ++ g.conjuncts r := by
  rw [hg.conjuncts_eq hc, conjunctsStep, hf]

theorem WellFormed.conjuncts_single (hg : g.WellFormed) {c : ConsHandle} (hc : g.contains c = true)
    (hf : ∀ l r, g.cons c ≠ .conjunction l r) : g.conjuncts c = [c] := by
  rw [hg.conjuncts_eq hc, conjunctsStep]
  cases h : g.cons c with
  | conjunction l r => exact absurd h (hf l r)
  | _ => rfl

/-- Induction over what is reached through conjunctions. -/
@[elab_as_elim]
theorem WellFormed.conjunction_induction (hg : g.WellFormed)
    {motive : (c : ConsHandle) → g.contains c = true → Prop}
    (single : ∀ c hc, (∀ l r, g.cons c ≠ .conjunction l r) → motive c hc)
    (conjunction : ∀ c l r hc hl hr, g.cons c = .conjunction l r → motive l hl → motive r hr →
      motive c hc)
    (c : ConsHandle) (hc : g.contains c = true) : motive c hc := by
  induction c, hc using hg.cons_induction with
  | atom c hc hops => exact single c hc fun l r h => by rw [h] at hops; cases hops
  | conjunction c l r hc hl hr hf ihl ihr => exact conjunction c l r hc hl hr hf ihl ihr
  | disjunction c l r hc hl hr hf ihl ihr =>
    exact single c hc fun l' r' h => by rw [h] at hf; cases hf

/-- The search looks at the same operands when the graph is extended. -/
theorem WellFormed.conjuncts_extend (hg : g.WellFormed) (hg' : g'.WellFormed) (h : g.Extends g')
    {c : ConsHandle} (hc : g.contains c = true) : g'.conjuncts c = g.conjuncts c := by
  induction c, hc using hg.conjunction_induction with
  | single c hc hf =>
    rw [hg.conjuncts_single hc hf, hg'.conjuncts_single (h.contains hc) (h.cons hc ▸ hf)]
  | conjunction c l r hc hl hr hf ihl ihr =>
    rw [hg.conjuncts_conjunction hc hf, hg'.conjuncts_conjunction (h.contains hc)
      ((h.cons hc).trans hf), ihl, ihr]

/-- **The constraint entails the operands that the search looks at.** -/
theorem WellFormed.holds_of_mem_conjuncts (hg : g.WellFormed) {c k : ConsHandle}
    (hc : g.contains c = true) (hk : k ∈ g.conjuncts c) :
    g.contains k = true ∧ ∀ v, (g.consFormula c).Holds v → (g.consFormula k).Holds v := by
  induction c, hc using hg.conjunction_induction with
  | single c hc hf =>
    rw [hg.conjuncts_single hc hf] at hk
    rw [List.mem_singleton.1 hk]
    exact ⟨hc, fun _ h => h⟩
  | conjunction c l r hc hl hr hf ihl ihr =>
    rw [hg.conjuncts_conjunction hc hf] at hk
    rw [hg.consFormula_eq hc, hf]
    rcases List.mem_append.1 hk with hk | hk
    · obtain ⟨hcontains, hholds⟩ := ihl hk
      exact ⟨hcontains, fun v hv => hholds v hv.1⟩
    · obtain ⟨hcontains, hholds⟩ := ihr hk
      exact ⟨hcontains, fun v hv => hholds v hv.2⟩

/-- The predicate `x` is among the operands that the search looks at. -/
def Exposes (g : Graph) (c : ConsHandle) (x : ExprHandle) : Prop :=
  ∃ k ∈ g.conjuncts c, g.cons k = .predicate x

theorem Exposes.extend (hg : g.WellFormed) (hg' : g'.WellFormed) (h : g.Extends g')
    {c : ConsHandle} (hc : g.contains c = true) (hx : g.Exposes c x) : g'.Exposes c x := by
  obtain ⟨k, hk, hf⟩ := hx
  have hcontains := (hg.holds_of_mem_conjuncts hc hk).1
  exact ⟨k, by rwa [hg.conjuncts_extend hg' h hc], (h.cons hcontains).trans hf⟩

/-- What a constraint exposes is true whenever the constraint is. -/
theorem Exposes.forces (hg : g.WellFormed) {c : ConsHandle} (hc : g.contains c = true)
    (hx : g.Exposes c x) : ∀ v, (g.consFormula c).Holds v → v (.expr x) := by
  obtain ⟨k, hk, hf⟩ := hx
  obtain ⟨hcontains, hholds⟩ := hg.holds_of_mem_conjuncts hc hk
  intro v hv
  have hkv := hholds v hv
  rwa [hg.consFormula_eq hcontains, hf] at hkv

end Graph

/-! ## Normalizing -/

namespace Build

/-- Joining two constraints keeps what either of them exposes. -/
theorem Yields.conjunction_exposes (hg : g.WellFormed) {l r : ConsHandle}
    (hl : g.contains l = true) (hr : g.contains r = true) (hx : g.Exposes l x ∨ g.Exposes r x) :
    Yields g (Build.conjunction l r) fun c g' => g'.contains c = true ∧ g'.Exposes c x := by
  have hjoin : ∀ {a b : ConsHandle}, g.contains a = true → g.contains b = true → a < b →
      g.Exposes a x ∨ g.Exposes b x → Yields g (Build.constraint (.conjunction a b))
        fun c g' => g'.contains c = true ∧ g'.Exposes c x := by
    intro a b ha hb hlt hab
    obtain ⟨hgrow, hc, hf⟩ := Yields.constraint (f := .conjunction a b) ⟨ha, hb, hlt⟩
    have hg' := hgrow.wellFormed hg
    refine ⟨hgrow, hc, ?_⟩
    rw [Exposes, hg'.conjuncts_conjunction hc hf]
    rcases hab with hab | hab
    · obtain ⟨k, hk, hpred⟩ := hab.extend hg hg' hgrow.extends ha
      exact ⟨k, List.mem_append_left _ hk, hpred⟩
    · obtain ⟨k, hk, hpred⟩ := hab.extend hg hg' hgrow.extends hb
      exact ⟨k, List.mem_append_right _ hk, hpred⟩
  rw [Build.conjunction]
  split
  · next h =>
    subst h
    exact .pure ⟨hl, hx.elim id id⟩
  · next hne =>
    split
    · next hle => exact hjoin hl hr (Nat.lt_of_le_of_ne hle fun h => hne (Handle.ext h)) hx
    · next hle => exact hjoin hr hl (Nat.lt_of_not_le hle) hx.symm

end Build

namespace Graph

theorem WellFormed.normalize_predicate (hg : g.WellFormed) (he : g.contains e = true)
    (hp : (g.expr e).form.isPredicate = true) : Build.normalize e g = Build.predicate e g := by
  rw [hg.normalize_eq he, Build.normalizeStep, Build.get_bind]
  cases hf : (g.expr e).form with
  | binary op l r =>
    rw [hf] at hp
    cases op <;> first | rfl | cases hp
  | check d args => rw [hf] at hp; cases hp
  | _ => rfl

theorem WellFormed.normalize_and (hg : g.WellFormed) (he : g.contains e = true)
    {l r : ExprHandle} (hf : (g.expr e).form = .binary .and l r) :
    Build.normalize e g = (do
      let a ← Build.normalize l
      let b ← Build.normalize r
      Build.conjunction a b) g := by
  rw [hg.normalize_eq he, Build.normalizeStep, Build.get_bind, hf]

/-- **Normalizing loses no predicate that is reached through `&&` only.** -/
theorem Conjunct.yields_normalize (hg : g.WellFormed) (h : g.Conjunct C x)
    (hC : g.contains C = true) (hx : (g.expr x).form.isPredicate = true) {g' : Graph}
    (hext : g.Extends g') (hg' : g'.WellFormed) :
    Build.Yields g' (Build.normalize C) fun c g'' =>
      g''.contains c = true ∧ g''.Exposes c x := by
  induction h generalizing g' with
  | self x =>
    have hpred := hg'.normalize_predicate (hext.contains hC) ((hext.expr hC).symm ▸ hx)
    obtain ⟨hgrow, hc, hf⟩ := Build.Yields.constraint (f := .predicate x) (hext.contains hC)
    refine .congr hpred ⟨hgrow, hc, _, ?_, hf⟩
    have hsingle := (hgrow.wellFormed hg').conjuncts_single hc fun l r h => by cases hf.symm.trans h
    rw [Build.predicate, hsingle]
    exact List.mem_cons_self
  | @left C l r x hf _ ih =>
    obtain ⟨hl, hr⟩ := (hg.fits_of_expr hC hf).2
    refine .congr (hg'.normalize_and (hext.contains hC) ((hext.expr hC).symm ▸ hf)) ?_
    refine .bind hg' (ih hl hx hext hg') fun a g₁ hgrow₁ hg₁ ha => ?_
    have hext₁ := hext.trans hgrow₁.extends
    refine .bind hg₁ (.normalize hg₁ (hext₁.contains hr)) fun b g₂ hgrow₂ hg₂ hb => ?_
    exact .conjunction_exposes hg₂ (hgrow₂.contains ha.1) hb.1
      (.inl (ha.2.extend hg₁ hg₂ hgrow₂.extends ha.1))
  | @right C l r x hf _ ih =>
    obtain ⟨hl, hr⟩ := (hg.fits_of_expr hC hf).2
    refine .congr (hg'.normalize_and (hext.contains hC) ((hext.expr hC).symm ▸ hf)) ?_
    refine .bind hg' (.normalize hg' (hext.contains hl)) fun a g₁ hgrow₁ hg₁ ha => ?_
    refine .bind hg₁ (ih hr hx (hext.trans hgrow₁.extends) hg₁) fun b g₂ hgrow₂ hg₂ hb => ?_
    exact .conjunction_exposes hg₂ (hgrow₂.contains ha.1) hb.1 (.inr hb.2)

/-! ## The search -/

theorem predicate_of_admittedBy? {k : ConsHandle} (h : g.admittedBy? e k = some r) :
    ∃ p, g.cons k = .predicate p := by
  rw [admittedBy?] at h
  split at h
  · next p hf => exact ⟨p, hf⟩
  · cases h

/-- What an atom admits is offered by its predicate. -/
theorem offers_of_admittedBy? {k : ConsHandle} (hk : g.cons k = .predicate p)
    (hp : (g.expr p).form.isPredicate = true) (h : g.admittedBy? e k = some r) :
    g.Offers p r ∧ g.equivalent r e = true := by
  rw [admittedBy?, hk] at h
  dsimp only at h
  split at h
  · next heq =>
    cases h
    exact ⟨.itself hp, heq⟩
  · split at h
    · next hf =>
      obtain ⟨q, hq, hr⟩ := List.exists_of_findSome?_eq_some h
      obtain ⟨hr, heq⟩ := Option.filter_eq_some_iff.1 hr
      exact ⟨.requirement hf hq hr, heq⟩
    · cases h

/-- An atom admits everything that its predicate offers. -/
theorem admittedBy?_of_offers {k : ConsHandle} (hk : g.cons k = .predicate p)
    (h : g.Offers p x) (heq : g.equivalent x e = true) : (g.admittedBy? e k).isSome = true := by
  rw [admittedBy?, hk]
  dsimp only
  split
  · rfl
  · next hne =>
    cases h with
    | itself _ => exact absurd heq hne
    | requirement hf hq hx =>
      rw [hf]
      refine List.findSome?_isSome_iff.2 ⟨_, hq, ?_⟩
      rw [requiredBy?, hx, Option.filter_some, if_pos heq]
      rfl

section Search

variable (hg : g.WellFormed) (hC : g.contains C = true) (he : g.contains e = true)

include hg hC he

/-- **What is admitted is guaranteed by the constraint.** -/
theorem WellFormed.guarantees_of_admission (h : (Build.admission? C e g).1 = some r) :
    g.equivalent r e = true ∧ g.Guarantees C r := by
  obtain ⟨hgrow, hc, hstates⟩ := Build.Yields.normalize hg hC
  have hext := hgrow.extends
  have hg' := hgrow.wellFormed hg
  obtain ⟨k, hk, hadmitted⟩ := List.exists_of_findSome?_eq_some h
  obtain ⟨p, hpred⟩ := predicate_of_admittedBy? hadmitted
  -- the predicate was found in the normalized constraint, which states what `C` states
  have hforces : g.Forces C p := fun v hv =>
    Exposes.forces hg' hc ⟨k, hk, hpred⟩ v ((hstates v).2 hv)
  have hp := hforces.contains hg hC
  have hpredicate := hforces.isPredicate hg hC
  obtain ⟨hoffers, heq⟩ := offers_of_admittedBy? hpred (by rwa [hext.expr hp]) hadmitted
  rw [hg.offers_extend hext hp] at hoffers
  rw [hg.equivalent_extend hg' hext (hoffers.contains hg hp) he] at heq
  exact ⟨heq, p, hforces, hoffers⟩

/-- **What an operand under `&&` offers is admitted.** -/
theorem Conjunct.isSome_admission (hconj : g.Conjunct C p) (hoffers : g.Offers p x)
    (heq : g.equivalent x e = true) : (Build.admission? C e g).1.isSome = true := by
  obtain ⟨hgrow, hc, k, hk, hpred⟩ := hconj.yields_normalize hg hC hoffers.isPredicate (.refl g) hg
  have hext := hgrow.extends
  have hp := hconj.contains hg hC
  refine List.findSome?_isSome_iff.2 ⟨k, hk, admittedBy?_of_offers hpred
    ((hg.offers_extend hext hp).2 hoffers) ?_⟩
  rwa [hg.equivalent_extend (hgrow.wellFormed hg) hext (hoffers.contains hg hp) he]

end Search

/-- **What constraints admit.**  An expression is admitted by an equivalent one that the constraint
guarantees, and if the constraint is a disjunction then either branch guarantees it; on the other
hand everything is admitted that is offered by an operand under `&&`. -/
theorem Reachable.admission_spec (hg : g.Reachable) (hC : g.contains C = true)
    (he : g.contains e = true) :
    (∀ r, (Build.admission? C e g).1 = some r → g.equivalent r e = true ∧ g.Guarantees C r) ∧
    (∀ p x, g.Conjunct C p → g.Offers p x → g.equivalent x e = true →
      (Build.admission? C e g).1.isSome = true) ∧
    ∀ lhs rhs, (g.expr C).form = .binary .or lhs rhs →
      ∀ r, (Build.admission? C e g).1 = some r → g.Guarantees lhs r ∧ g.Guarantees rhs r := by
  have hw := hg.wellFormed
  refine ⟨fun r h => hw.guarantees_of_admission hC he h,
    fun p x hconj hoffers heq => hconj.isSome_admission hw hC he hoffers heq,
    fun lhs rhs hf r h => ?_⟩
  exact (hw.guarantees_of_admission hC he h).2.branches hw hC hf

/-- A graph with a requires-expression on the literal `false`, its expression 2, and with the
conjunction and the disjunction of this and the literal `true`, its expressions 3 and 4. -/
def requiredLiteral : Graph :=
  let build : Build Unit := do
    let a ← Build.boolLiteral true
    let b ← Build.boolLiteral false
    let q ← Build.req (.basic b)
    let r ← Build.requiresExpr [] [] [q]
    let _ ← Build.binary .and .bool a r
    let _ ← Build.binary .or .bool a r
  (build (.initial .empty 32)).2

theorem requiredLiteral_reachable : requiredLiteral.Reachable := by
  have hbinary : ∀ {g : Graph} (op : BinaryOp) (lhs rhs : ExprHandle), g.Reachable →
      g.contains lhs = true → g.contains rhs = true →
        (Build.binary op .bool lhs rhs g).2.Reachable := fun op _ _ hg hl hr =>
    hg.operation (.binary op hg.wellFormed.contains_bool hl hr)
  have hliterals := ((Reachable.initial .empty 32).operation (.boolLiteral true)).operation
    (.boolLiteral false)
  have hreq := hliterals.operation (.req (f := .basic ⟨1⟩) rfl)
  have hrequires := hreq.operation (x := Build.requiresExpr [] [] [⟨0⟩]) (.requiresExpr
    (by rintro _ ⟨⟩) (by rintro _ ⟨⟩) (by rintro r (_ | ⟨_, ⟨⟩⟩); rfl))
  exact hbinary .or ⟨0⟩ ⟨2⟩ (hbinary .and ⟨0⟩ ⟨2⟩ hrequires rfl rfl) rfl rfl

/-- Here the conjunction admits the literal `false`, and the disjunction does not. -/
theorem admission_spec_requiredLiteral :
    requiredLiteral.Reachable ∧ requiredLiteral.contains (⟨3⟩ : ExprHandle) = true ∧
    requiredLiteral.contains (⟨1⟩ : ExprHandle) = true ∧
    (Build.admission? ⟨3⟩ ⟨1⟩ requiredLiteral).1 = some ⟨1⟩ ∧
    (Build.admission? ⟨4⟩ ⟨1⟩ requiredLiteral).1 = none ∧
    (∀ r, (Build.admission? ⟨3⟩ ⟨1⟩ requiredLiteral).1 = some r →
      requiredLiteral.equivalent r ⟨1⟩ = true ∧ requiredLiteral.Guarantees ⟨3⟩ r) ∧
    (∀ p x, requiredLiteral.Conjunct ⟨3⟩ p → requiredLiteral.Offers p x →
      requiredLiteral.equivalent x ⟨1⟩ = true →
        (Build.admission? ⟨3⟩ ⟨1⟩ requiredLiteral).1.isSome = true) ∧
    ∀ lhs rhs, (requiredLiteral.expr ⟨3⟩).form = .binary .or lhs rhs →
      ∀ r, (Build.admission? ⟨3⟩ ⟨1⟩ requiredLiteral).1 = some r →
        requiredLiteral.Guarantees lhs r ∧ requiredLiteral.Guarantees rhs r :=
  ⟨requiredLiteral_reachable, rfl, rfl, by decide +kernel, by decide +kernel,
    requiredLiteral_reachable.admission_spec rfl rfl⟩

end Graph
end SemanticCore
