import SemanticCore.Expr.Equivalence
import SemanticCore.Proofs.Graph.Growth

/-!
# Erasing handles from expressions

Expressions are not interned, so the same expression can stand at many handles.  Erasing unfolds an
expression to a tree that has forgotten the handles of the expressions and requirements inside it.
It keeps the handles of declarations and types, and the static type only of integer literals and of
conversions: elsewhere the type follows from the form, or is a placeholder that says nothing.

* `Graph.WellFormed.equivalent_iff` — **expressions are equivalent exactly if they erase to the
  same tree**, so equivalence is an equivalence relation.
* `Graph.WellFormed.erase_extend` — what an expression erases to never changes.
-/

set_option autoImplicit false
namespace SemanticCore

/-- An argument in which an expression is replaced by what it erases to. -/
inductive ErasedTerm (α : Type) where
  | type (t : TypeHandle)
  | expr (a : α)
  | decl (d : DeclHandle)

/-- A requirement in which an expression is replaced by what it erases to. -/
inductive ErasedReq (α : Type) where
  | basic (a : α)
  | type (t : TypeHandle)
  | conversion (a : α) (t : TypeHandle)

/-- An expression without the handles of the expressions and requirements inside it. -/
inductive ErasedExpr where
  | boolean (value : Bool)
  | integer (value : Int) (type : TypeHandle)
  | reference (decl : DeclHandle)
  | templateRef (decl : DeclHandle)
  | check (concept : DeclHandle) (args : List (ErasedTerm ErasedExpr))
  | binary (op : BinaryOp) (lhs rhs : ErasedExpr)
  | not (operand : ErasedExpr)
  | call (callee : ErasedExpr) (args : List ErasedExpr)
  | conversion (kind : ConversionKind) (type : TypeHandle) (source : ErasedExpr)
  | synthetic (decl : DeclHandle)
  | requires (tparams params : List DeclHandle) (reqs : List (ErasedReq ErasedExpr))

/-! ## From a form to a tree -/

/-- An argument, given what expressions erase to. -/
def Term.erase {α : Type} (part : ExprHandle → α) : Term → ErasedTerm α
  | type t => .type t
  | expr e => .expr (part e)
  | decl d => .decl d

/-- A requirement, given what expressions erase to. -/
def ReqForm.erase {α : Type} (part : ExprHandle → α) : ReqForm → ErasedReq α
  | basic e => .basic (part e)
  | type t => .type t
  | conversion e t => .conversion (part e) t

/-- An expression, given what the expressions inside it erase to. -/
def Expr.erase (g : Graph) (part : ExprHandle → ErasedExpr) (e : Expr) : ErasedExpr :=
  match e.form with
  | .boolean b => .boolean b
  | .integer n => .integer n e.type
  | .reference d => .reference d
  | .templateRef d => .templateRef d
  | .check c args => .check c (args.map (·.erase part))
  | .binary op lhs rhs => .binary op (part lhs) (part rhs)
  | .not x => .not (part x)
  | .call f args => .call (part f) (args.map part)
  | .conversion k x => .conversion k e.type (part x)
  | .synthetic d => .synthetic d
  | .requires ts ps rs => .requires ts ps (rs.map fun r => (g.req r).erase part)

/-! ## Agreement is equality of erasures -/

/-- Lists that agree member by member are those with the same image. -/
theorem isEqv_iff {α β : Type} {same : α → α → Bool} {f : α → β} {as bs : List α}
    (h : ∀ a ∈ as, ∀ b ∈ bs, same a b = true ↔ f a = f b) :
    as.isEqv bs same = true ↔ as.map f = bs.map f := by
  induction as generalizing bs with
  | nil => cases bs <;> simp
  | cons a as ih =>
    cases bs with
    | nil => simp
    | cons b bs =>
      have hhead := h a List.mem_cons_self b List.mem_cons_self
      have htail := ih fun x hx y hy =>
        h x (List.mem_cons_of_mem _ hx) y (List.mem_cons_of_mem _ hy)
      rw [List.isEqv_cons_cons, Bool.and_eq_true, hhead, htail, List.map_cons, List.map_cons,
        List.cons.injEq]

section Agree

variable {α : Type} {same : ExprHandle → ExprHandle → Bool} {part : ExprHandle → α}

theorem Term.agree_iff {a b : Term}
    (h : ∀ x y, a.expr? = some x → b.expr? = some y → (same x y = true ↔ part x = part y)) :
    a.agree same b = true ↔ a.erase part = b.erase part := by
  cases a with
  | expr x =>
    cases b with
    | expr y => simpa [agree, erase] using h x y rfl rfl
    | _ => simp [agree, erase]
  | _ => cases b <;> simp [agree, erase]

theorem ReqForm.agree_iff {a b : ReqForm}
    (h : ∀ x y, a.expr? = some x → b.expr? = some y → (same x y = true ↔ part x = part y)) :
    a.agree same b = true ↔ a.erase part = b.erase part := by
  cases a with
  | basic x =>
    cases b with
    | basic y => simpa [agree, erase] using h x y rfl rfl
    | _ => simp [agree, erase]
  | type s => cases b <;> simp [agree, erase]
  | conversion x s =>
    cases b with
    | conversion y t => simpa [agree, erase, and_comm] using fun _ => h x y rfl rfl
    | _ => simp [agree, erase]

end Agree

namespace Graph

variable {g g' : Graph}

/-- Expressions agree exactly if they erase to the same tree, given that this is so for the
expressions inside them. -/
theorem agree_iff {same : ExprHandle → ExprHandle → Bool} (part : ExprHandle → ErasedExpr)
    {a b : Expr}
    (h : ∀ x ∈ a.form.operands g, ∀ y ∈ b.form.operands g, same x y = true ↔ part x = part y) :
    g.agree same a b = true ↔ a.erase g part = b.erase g part := by
  obtain ⟨fa, ta⟩ := a
  obtain ⟨fb, tb⟩ := b
  cases fa with
  | check c xs =>
    cases fb with
    | check d ys =>
      have hargs : xs.isEqv ys (Term.agree same) = true ↔
          xs.map (·.erase part) = ys.map (·.erase part) :=
        isEqv_iff fun x hx y hy => Term.agree_iff fun u v hu hv =>
          h u (List.mem_filterMap.2 ⟨x, hx, hu⟩) v (List.mem_filterMap.2 ⟨y, hy, hv⟩)
      simp [agree, Expr.erase, hargs]
    | _ => simp [agree, Expr.erase]
  | binary o x x' =>
    cases fb with
    | binary p y y' =>
      have hl := h x List.mem_cons_self y List.mem_cons_self
      have hr := h x' (List.mem_cons_of_mem _ List.mem_cons_self) y'
        (List.mem_cons_of_mem _ List.mem_cons_self)
      simp [agree, Expr.erase, hl, hr, and_assoc]
    | _ => simp [agree, Expr.erase]
  | not x =>
    cases fb with
    | not y => simpa [agree, Expr.erase] using h x List.mem_cons_self y List.mem_cons_self
    | _ => simp [agree, Expr.erase]
  | call f xs =>
    cases fb with
    | call k ys =>
      have hf := h f List.mem_cons_self k List.mem_cons_self
      have hargs : xs.isEqv ys same = true ↔ xs.map part = ys.map part :=
        isEqv_iff fun x hx y hy =>
          h x (List.mem_cons_of_mem _ hx) y (List.mem_cons_of_mem _ hy)
      simp [agree, Expr.erase, hf, hargs]
    | _ => simp [agree, Expr.erase]
  | conversion k x =>
    cases fb with
    | conversion l y =>
      have hx := h x List.mem_cons_self y List.mem_cons_self
      simp [agree, Expr.erase, hx, and_assoc]
    | _ => simp [agree, Expr.erase]
  | requires ts ps rs =>
    cases fb with
    | requires us qs ss =>
      have hreqs : (rs.isEqv ss fun r s => (g.req r).agree same (g.req s)) = true ↔
          (rs.map fun r => (g.req r).erase part) = ss.map fun s => (g.req s).erase part :=
        isEqv_iff fun r hr s hs => ReqForm.agree_iff fun u v hu hv =>
          h u (List.mem_filterMap.2 ⟨r, hr, hu⟩) v (List.mem_filterMap.2 ⟨s, hs, hv⟩)
      simp [agree, Expr.erase, hreqs, and_assoc]
    | _ => simp [agree, Expr.erase]
  | _ => cases fb <;> simp [agree, Expr.erase]

/-- What an expression erases to depends on the expressions inside it only. -/
theorem erase_congr {part part' : ExprHandle → ErasedExpr} {e : Expr}
    (h : ∀ x ∈ e.form.operands g, part x = part' x) : e.erase g part = e.erase g part' := by
  obtain ⟨f, t⟩ := e
  cases f with
  | check c args =>
    refine congrArg (ErasedExpr.check c) (List.map_congr_left fun a ha => ?_)
    cases a with
    | expr x => exact congrArg ErasedTerm.expr (h x (List.mem_filterMap.2 ⟨_, ha, rfl⟩))
    | _ => rfl
  | binary op lhs rhs =>
    exact congrArg₂ (ErasedExpr.binary op) (h lhs List.mem_cons_self)
      (h rhs (List.mem_cons_of_mem _ List.mem_cons_self))
  | not x => exact congrArg ErasedExpr.not (h x List.mem_cons_self)
  | call callee args =>
    exact congrArg₂ ErasedExpr.call (h callee List.mem_cons_self)
      (List.map_congr_left fun x hx => h x (List.mem_cons_of_mem _ hx))
  | conversion k x => exact congrArg (ErasedExpr.conversion k t) (h x List.mem_cons_self)
  | requires ts ps rs =>
    refine congrArg (ErasedExpr.requires ts ps) (List.map_congr_left fun r hr => ?_)
    have hreq : ∀ x, (g.req r).expr? = some x → part x = part' x := fun x hx =>
      h x (List.mem_filterMap.2 ⟨r, hr, hx⟩)
    cases hf : g.req r with
    | basic x => exact congrArg ErasedReq.basic (hreq x (by rw [hf]; rfl))
    | type s => rfl
    | conversion x s => exact congrArg (ErasedReq.conversion · s) (hreq x (by rw [hf]; rfl))
  | _ => rfl

/-! ### Reading the form of an expression off what it erases to -/

section Erase

variable {part : ExprHandle → ErasedExpr} {e : Expr} {d : DeclHandle}

theorem erase_eq_reference : e.erase g part = .reference d ↔ e.form = .reference d := by
  obtain ⟨f, t⟩ := e
  cases f <;> simp [Expr.erase]

theorem erase_eq_templateRef : e.erase g part = .templateRef d ↔ e.form = .templateRef d := by
  obtain ⟨f, t⟩ := e
  cases f <;> simp [Expr.erase]

theorem erase_eq_synthetic : e.erase g part = .synthetic d ↔ e.form = .synthetic d := by
  obtain ⟨f, t⟩ := e
  cases f <;> simp [Expr.erase]

theorem erase_eq_check {as : List (ErasedTerm ErasedExpr)} :
    e.erase g part = .check d as ↔
      ∃ args, e.form = .check d args ∧ args.map (·.erase part) = as := by
  obtain ⟨f, t⟩ := e
  cases f <;> simp [Expr.erase]

/-- The erasure of a literal or of a conversion keeps its type. -/
theorem erase_eq_integer {n : Int} {t : TypeHandle} :
    e.erase g part = .integer n t ↔ e.form = .integer n ∧ e.type = t := by
  obtain ⟨f, t⟩ := e
  cases f <;> simp [Expr.erase]

theorem erase_eq_conversion {k : ConversionKind} {t : TypeHandle} {x : ErasedExpr} :
    e.erase g part = .conversion k t x ↔
      ∃ y, e.form = .conversion k y ∧ e.type = t ∧ part y = x := by
  obtain ⟨f, t⟩ := e
  cases f <;> simp [Expr.erase]

theorem erase_eq_binary {op : BinaryOp} {l r : ErasedExpr} :
    e.erase g part = .binary op l r ↔
      ∃ x y, e.form = .binary op x y ∧ part x = l ∧ part y = r := by
  obtain ⟨f, t⟩ := e
  cases f <;> simp [Expr.erase]

theorem erase_eq_call {callee : ErasedExpr} {args : List ErasedExpr} :
    e.erase g part = .call callee args ↔
      ∃ x xs, e.form = .call x xs ∧ part x = callee ∧ xs.map part = args := by
  obtain ⟨f, t⟩ := e
  cases f <;> simp [Expr.erase]

end Erase

/-! ## From a handle to a tree -/

/-- What an expression erases to.  An expression inside it that does not come before it would count
as `false`. -/
def erase (g : Graph) (e : ExprHandle) : ErasedExpr :=
  (g.expr e).erase g fun x => if _ : x < e then g.erase x else .boolean false
termination_by e.index
decreasing_by assumption

theorem WellFormed.operand_lt (hg : g.WellFormed) {e x : ExprHandle} (he : g.contains e = true)
    (hx : x ∈ (g.expr e).form.operands g) : x < e :=
  (hg.placed e he).2 x hx

theorem WellFormed.contains_operand (hg : g.WellFormed) {e x : ExprHandle}
    (he : g.contains e = true) (hx : x ∈ (g.expr e).form.operands g) : g.contains x = true :=
  hg.operands_fit (hg.placed e he).1 x hx

/-- An expression erases to the tree that is made of what the expressions inside it erase to. -/
theorem WellFormed.erase_eq (hg : g.WellFormed) {e : ExprHandle} (he : g.contains e = true) :
    g.erase e = (g.expr e).erase g g.erase := by
  rw [Graph.erase]
  exact erase_congr fun x hx => dif_pos (hg.operand_lt he hx)

/-- **Expressions are equivalent exactly if they erase to the same tree.** -/
theorem WellFormed.equivalent_iff (hg : g.WellFormed) {a b : ExprHandle}
    (ha : g.contains a = true) (hb : g.contains b = true) :
    g.equivalent a b = true ↔ g.erase a = g.erase b := by
  obtain ⟨i⟩ := a
  induction i using Nat.strongRecOn generalizing b with
  | ind i ih =>
    rw [equivalent, Bool.or_eq_true, beq_iff_eq, hg.erase_eq ha, hg.erase_eq hb,
      agree_iff g.erase]
    · exact or_iff_right_of_imp fun h => by rw [h]
    · intro x hx y hy
      rw [dif_pos (hg.operand_lt ha hx)]
      exact ih x.index (hg.operand_lt ha hx) (hg.contains_operand hb hy)
        (hg.contains_operand ha hx)

theorem Extends.exprErase (h : g.Extends g') (part : ExprHandle → ErasedExpr) {e : Expr}
    (he : e.Fits g) : e.erase g' part = e.erase g part := by
  obtain ⟨f, t⟩ := e
  cases f with
  | requires ts ps rs =>
    refine congrArg (ErasedExpr.requires ts ps) (List.map_congr_left fun r hr => ?_)
    rw [h.req (he.2.2.2.2 r hr)]
  | _ => rfl

/-- **What an expression erases to stays as it is when the graph is extended.** -/
theorem WellFormed.erase_extend (hg : g.WellFormed) (h : g.Extends g') {e : ExprHandle}
    (he : g.contains e = true) : g'.erase e = g.erase e := by
  obtain ⟨i⟩ := e
  induction i using Nat.strongRecOn with
  | ind i ih =>
    have hfit := (hg.placed _ he).1
    rw [hg.erase_eq he, Graph.erase, h.expr he, h.exprErase _ hfit]
    refine erase_congr fun x hx => ?_
    rw [dif_pos (hg.operand_lt he hx)]
    exact ih x.index (hg.operand_lt he hx) (hg.contains_operand he hx)

/-! ## Equivalence -/

theorem equivalent_refl (g : Graph) (a : ExprHandle) : g.equivalent a a = true := by
  rw [equivalent, beq_self_eq_true, Bool.true_or]

theorem WellFormed.equivalent_symm (hg : g.WellFormed) {a b : ExprHandle}
    (ha : g.contains a = true) (hb : g.contains b = true) (h : g.equivalent a b = true) :
    g.equivalent b a = true :=
  (hg.equivalent_iff hb ha).2 ((hg.equivalent_iff ha hb).1 h).symm

theorem WellFormed.equivalent_trans (hg : g.WellFormed) {a b c : ExprHandle}
    (ha : g.contains a = true) (hb : g.contains b = true) (hc : g.contains c = true)
    (h : g.equivalent a b = true) (h' : g.equivalent b c = true) : g.equivalent a c = true :=
  (hg.equivalent_iff ha hc).2
    (((hg.equivalent_iff ha hb).1 h).trans ((hg.equivalent_iff hb hc).1 h'))

/-- **The answer for two expressions stays as it is when the graph is extended.** -/
theorem WellFormed.equivalent_extend (hg : g.WellFormed) (hg' : g'.WellFormed) (h : g.Extends g')
    {a b : ExprHandle} (ha : g.contains a = true) (hb : g.contains b = true) :
    g'.equivalent a b = g.equivalent a b := by
  rw [Bool.eq_iff_iff, hg'.equivalent_iff (h.contains ha) (h.contains hb), hg.equivalent_iff ha hb,
    hg.erase_extend h ha, hg.erase_extend h hb]

/-- Equivalence looks at expressions and requirements only. -/
theorem equivalent_congr (he : g'.expr = g.expr) (hr : g'.req = g.req) (a b : ExprHandle) :
    g'.equivalent a b = g.equivalent a b := by
  have hagree : g'.agree = g.agree := by
    funext same x y
    rw [agree, agree, hr]
  obtain ⟨i⟩ := a
  induction i using Nat.strongRecOn generalizing b with
  | ind i ih =>
    have hsame : (fun x y => if _ : x < (⟨i⟩ : ExprHandle) then g'.equivalent x y else x == y) =
        fun x y => if _ : x < (⟨i⟩ : ExprHandle) then g.equivalent x y else x == y := by
      funext x y
      split
      · next hx => exact ih x.index hx y
      · rfl
    rw [equivalent, hsame, hagree, he, equivalent]

end Graph
end SemanticCore
