import SemanticCore.Proofs.Action.Conversion
import SemanticCore.Proofs.Action.ReferenceVariable
import SemanticCore.Proofs.Type.Arithmetic

/-!
# Operands of arithmetic operators and comparisons

An operator takes its operands by value and converts them to their common type.  Which conversions
there are is laid down apart from which types have a common one, so it has to be shown that the two
fit together: every arithmetic type is converted to every type that has a rank.  So an operator
never fails once a common type has been found.

The result has a type that can be told from the types of the operands by value
(`Graph.WellFormed.typeOf?_arithmetic`, `Graph.WellFormed.typeOf?_comparison`).  The operands leave
value conversions in the graph, in the order in which they are written, but types do not depend on
the expressions that there are (`Build.IgnoresExprs`), so swapping the operands changes neither
whether the operator succeeds nor the type of the result.

* `Graph.converts_of_hasRank` — arithmetic types are converted to types that have a rank.
* `Graph.Reachable.arithmetic_laws` — **the laws of common types, and that operators never fail once
  there is one.**
-/

set_option autoImplicit false
namespace SemanticCore

open SemanticCore.Graph

variable {α β ε : Type}

/-! ## Types do not depend on expressions -/

/-- Whatever expressions there are, the computation does the same, and it leaves them alone. -/
def Build.IgnoresExprs (x : Build α) : Prop :=
  ∀ (g : Graph) (es : Array Expr),
    x { g with exprs := es } = ((x g).1, { (x g).2 with exprs := es })

namespace Build.IgnoresExprs

theorem pure (a : α) : IgnoresExprs (Pure.pure a) := fun _ _ => rfl

theorem bind {x : Build α} {f : α → Build β} (hx : IgnoresExprs x) (hf : ∀ a, IgnoresExprs (f a)) :
    IgnoresExprs (x >>= f) := by
  intro g es
  calc (x >>= f) { g with exprs := es }
      = f (x { g with exprs := es }).1 (x { g with exprs := es }).2 := rfl
    _ = f (x g).1 { (x g).2 with exprs := es } := by rw [hx g es]
    _ = _ := hf _ _ _

/-- What is read has to be the same whatever expressions there are. -/
theorem get_bind {f : Graph → Build α} (hf : ∀ g es, f { g with exprs := es } = f g)
    (h : ∀ g, IgnoresExprs (f g)) : IgnoresExprs ((get : Build Graph) >>= f) := by
  intro g es
  calc ((get : Build Graph) >>= f) { g with exprs := es }
      = f { g with exprs := es } { g with exprs := es } := rfl
    _ = f g { g with exprs := es } := by rw [hf]
    _ = _ := h g g es

theorem type (f : TypeForm) : IgnoresExprs (Build.type f) := by
  intro g es
  simp only [Build.type, modifyGet, MonadStateOf.modifyGet, StateT.modifyGet]
  split
  · rfl
  · rfl

theorem fresh : IgnoresExprs Build.fresh := fun _ _ => rfl

theorem intType : IgnoresExprs Build.intType :=
  .get_bind (fun _ _ => rfl) fun _ => type _

theorem autoType : IgnoresExprs Build.autoType :=
  .bind fresh fun _ => type _

theorem promote? (t : TypeHandle) : IgnoresExprs (Build.promote? t) := by
  refine .get_bind (fun _ _ => rfl) fun g => ?_
  cases g.type t with
  | bool => exact .bind intType fun _ => .pure _
  | _ => exact .pure _

theorem commonPromoted? (u v : TypeHandle) : IgnoresExprs (Build.commonPromoted? u v) := by
  refine .get_bind (fun _ _ => rfl) fun g => .get_bind (fun _ _ => rfl) fun g' => ?_
  split
  · exact .pure _
  · exact .pure _
  · exact .bind (type _) fun _ => .pure _
  · exact .pure _

theorem commonType? (a b : TypeHandle) : IgnoresExprs (Build.commonType? a b) := by
  rw [Build.commonType?_eq]
  refine .bind (promote? a) fun u => ?_
  cases u with
  | none => exact .pure _
  | some u =>
    refine .bind (promote? b) fun v => ?_
    cases v with
    | none => exact .pure _
    | some v => exact commonPromoted? u v

end Build.IgnoresExprs

/-! ## Operands by value -/

namespace Graph

variable {g g' : Graph} {l r e : ExprHandle} {s t : TypeHandle} {k : ArithmeticRank}

/-- One of the two types is dependent. -/
def eitherDependent (g : Graph) (a b : TypeHandle) : Bool :=
  g.isDependent a || g.isDependent b

theorem valueOf_exprs (g : Graph) (e : ExprHandle) :
    ∃ es, (Build.valueOf e g).2 = { g with exprs := es } := by
  rw [valueOf_graph]
  split
  · exact ⟨_, rfl⟩
  · exact ⟨g.exprs, rfl⟩

/-- The operands by value, as an operator sees them: the graph has got other expressions only. -/
structure Operands (g : Graph) (l r : ExprHandle) (g' : Graph) (x y : ExprHandle) : Prop where
  grows : g.Grows g'
  exprs : ∃ es, g' = { g with exprs := es }
  left : g'.contains x = true ∧ g'.exprType x = g.typeByValue l
  right : g'.contains y = true ∧ g'.exprType y = g.typeByValue r

theorem WellFormed.operands_valueOf (hg : g.WellFormed) (hl : g.contains l = true)
    (hr : g.contains r = true) :
    g.Operands l r (Build.valueOf r (Build.valueOf l g).2).2 (Build.valueOf l g).1
      (Build.valueOf r (Build.valueOf l g).2).1 := by
  obtain ⟨hgrow, hx, hxt⟩ := Build.Yields.valueOf hg hl
  have hg₁ := hgrow.wellFormed hg
  obtain ⟨hgrow', hy, hyt⟩ := Build.Yields.valueOf hg₁ (hgrow.contains hr)
  obtain ⟨es, hes⟩ := valueOf_exprs g l
  obtain ⟨es', hes'⟩ := valueOf_exprs (Build.valueOf l g).2 r
  refine ⟨hgrow.trans hgrow', ⟨es', ?_⟩, ⟨hgrow'.contains hx, ?_⟩, hy, ?_⟩
  · refine hes'.trans ?_
    rw [hes]
  · exact (hgrow'.extends.exprType hx).trans hxt
  · exact hyt.trans (hg.typeByValue_extend hgrow.extends hr)

/-! ## Converting to a common type -/

theorem unqualified_of_hasRank (h : g.HasRank t k) : g.unqualified t = t := by
  refine unqualified_of_plain ?_
  have hrank := h.2
  cases hf : g.type t with
  | qualified b q => rw [hf] at hrank; cases hrank
  | _ => rfl

/-- **Arithmetic types are converted to every type that has a rank.** -/
theorem converts_of_hasRank (hs : g.contains s = true)
    (harith : (g.type s).isArithmetic = true) (ht : g.HasRank t k) : g.Converts s t := by
  have hrank := ht.2
  rw [Converts, unqualified_of_hasRank ht, conversionKind?]
  cases hfs : g.type s with
  | bool =>
    cases hft : g.type t with
    | int | float => exact .inr rfl
    | _ => rw [hft] at hrank; cases hrank
  | int =>
    cases hft : g.type t with
    | int | float => exact .inr rfl
    | _ => rw [hft] at hrank; cases hrank
  | float =>
    cases hft : g.type t with
    | int => exact .inr rfl
    -- there is no conversion from `float` to `float`, but there is only one such type
    | float => exact .inl (type_injective hs ht.1 (hfs.trans hft.symm))
    | _ => rw [hft] at hrank; cases hrank
  | _ => rw [hfs] at harith; cases harith

/-- An expression that is arithmetic by value is converted to every type that has a rank. -/
theorem WellFormed.convert_of_hasRank (hg : g.WellFormed) (he : g.contains e = true)
    (harith : (g.type (g.typeByValue e)).isArithmetic = true) (ht : g.HasRank t k) :
    ∃ x g', Build.convert e t g = (.ok x, g') ∧ g.Grows g' ∧ g'.contains x = true ∧
      g'.exprType x = t := by
  have hok := (hg.isOk_convert he ht.1).2
    (converts_of_hasRank (hg.contains_typeByValue he) harith ht)
  have hgrow := (Attempt.Yields.convert_source hg he ht.1).1
  rcases hrun : Build.convert e t g with ⟨x | x, g'⟩
  · rw [hrun] at hok
    cases hok
  · rw [hrun] at hgrow
    obtain ⟨hx, htype⟩ := (hg.convert_ok he ht.1 hrun).1
    exact ⟨x, g', rfl, hgrow, hx, htype.trans (unqualified_of_hasRank ht)⟩

/-- Operands that are arithmetic are brought to every type that has a rank. -/
theorem WellFormed.convertBoth_of_hasRank (hg : g.WellFormed) {x y : ExprHandle}
    (hx : g.contains x = true) (hy : g.contains y = true)
    (hax : (g.type (g.typeByValue x)).isArithmetic = true)
    (hay : (g.type (g.typeByValue y)).isArithmetic = true) (ht : g.HasRank t k) :
    ∃ p g', Build.convertBoth x y t g = (.ok p, g') := by
  obtain ⟨x', g₁, hrun₁, hgrow, -⟩ := hg.convert_of_hasRank hx hax ht
  have hext := hgrow.extends
  rw [← hext.type (hg.contains_typeByValue hy), ← hg.typeByValue_extend hext hy] at hay
  obtain ⟨y', g₂, hrun₂, -⟩ :=
    (hgrow.wellFormed hg).convert_of_hasRank (hgrow.contains hy) hay (ht.extend hext)
  refine ⟨(x', y'), g₂, ?_⟩
  rw [Build.convertBoth, Attempt.bind_of_ok hrun₁, Attempt.bind_of_ok hrun₂]
  rfl

end Graph

/-! ## The type of the result -/

/-- The type of the expression that the computation returns, if it succeeds. -/
def Attempt.typeOf? (x : Attempt ε ExprHandle) (g : Graph) : Option TypeHandle :=
  match x g with
  | (.ok e, g') => some (g'.exprType e)
  | (.error _, _) => none

theorem Attempt.typeOf?_lift_bind (x : Build α) (f : α → Attempt ε ExprHandle) (g : Graph) :
    ((liftM x : Attempt ε α) >>= f).typeOf? g = (f (x g).1).typeOf? (x g).2 :=
  rfl

theorem Attempt.typeOf?_get_bind (f : Graph → Attempt ε ExprHandle) (g : Graph) :
    ((get : Attempt ε Graph) >>= f).typeOf? g = (f g).typeOf? g :=
  rfl

theorem Attempt.typeOf?_binary (op : BinaryOp) (t : TypeHandle) (x y : ExprHandle) (g : Graph) :
    (liftM (Build.binary op t x y) : Attempt ε ExprHandle).typeOf? g = some t :=
  congrArg some (congrArg Expr.type ((getD_push ..).trans (if_pos rfl)))

namespace Graph

variable {g g' : Graph} {l r x y : ExprHandle}

/-- An expression of arithmetic type has the same type by value, and goes on having it. -/
theorem WellFormed.isArithmetic_typeByValue (hg : g.WellFormed) (hext : g.Extends g')
    (hx : g.contains x = true) (h : (g.type (g.exprType x)).isArithmetic = true) :
    (g'.type (g'.typeByValue x)).isArithmetic = true := by
  have hplain : g.isReference (g.exprType x) = false := by
    rw [isReference]
    cases hf : g.type (g.exprType x) with
    | reference a => rw [hf] at h; cases h
    | _ => rfl
  have hvalue : g.typeByValue x = g.exprType x := by
    rw [typeByValue, hplain]
    rfl
  rw [hg.typeByValue_extend hext hx, hvalue, hext.type (hg.contains_exprType hx)]
  exact h

namespace Operands

theorem dependent (hg : g.WellFormed) (hl : g.contains l = true) (hr : g.contains r = true)
    (h : g.Operands l r g' x y) : (g'.isTypeDependent x || g'.isTypeDependent y) =
      g.eitherDependent (g.typeByValue l) (g.typeByValue r) := by
  rw [isTypeDependent, isTypeDependent, h.left.2, h.right.2,
    hg.isDependent_extend h.grows.extends (hg.contains_typeByValue hl),
    hg.isDependent_extend h.grows.extends (hg.contains_typeByValue hr)]
  rfl

/-- The common type of the operands is that of their types in the graph from which they come. -/
theorem commonType?_eq (h : g.Operands l r g' x y) :
    (Build.commonType? (g'.exprType x) (g'.exprType y) g').1 =
      (Build.commonType? (g.typeByValue l) (g.typeByValue r) g).1 := by
  obtain ⟨es, hes⟩ := h.exprs
  rw [h.left.2, h.right.2, hes, Build.IgnoresExprs.commonType? _ _ g es]

/-- The operands are brought to their common type, if there is one, and then nothing fails. -/
theorem typeOf?_common (hg : g.WellFormed) (h : g.Operands l r g' x y)
    (want : TypeHandle → TypeHandle) (other : Option TypeHandle)
    {f : TypeHandle → ExprHandle × ExprHandle → Attempt SemanticError ExprHandle}
    {k : Attempt SemanticError ExprHandle} (hf : ∀ t p g'', (f t p).typeOf? g'' = some (want t))
    (hk : ∀ g'', k.typeOf? g'' = other) :
    Attempt.typeOf? (do
        match ← Build.commonType? (g'.exprType x) (g'.exprType y) with
        | some t => do
          let p ← Build.convertBoth x y t
          f t p
        | none => k) g' =
      match (Build.commonType? (g.typeByValue l) (g.typeByValue r) g).1 with
      | some t => some (want t)
      | none => other := by
  have hw := h.grows.wellFormed hg
  have hcx := hw.contains_exprType h.left.1
  have hcy := hw.contains_exprType h.right.1
  have hsome := hw.commonTypeLaws.isSome_iff _ _ hcx hcy
  obtain ⟨hgrow, -, hranked⟩ := hw.commonType?_ranked hcx hcy
  rw [← h.commonType?_eq]
  rcases hrun : Build.commonType? (g'.exprType x) (g'.exprType y) g' with ⟨_ | t, g₂⟩
  · rw [Attempt.typeOf?, Attempt.lift_bind, hrun]
    exact hk g₂
  · rw [hrun] at hsome hgrow hranked
    obtain ⟨hax, hay⟩ := hsome.1 rfl
    obtain ⟨k, ht⟩ := hranked.exists_rank
    obtain ⟨p, g₃, hboth⟩ := (hgrow.wellFormed hw).convertBoth_of_hasRank
      (hgrow.contains h.left.1) (hgrow.contains h.right.1)
      (hw.isArithmetic_typeByValue hgrow.extends h.left.1 hax)
      (hw.isArithmetic_typeByValue hgrow.extends h.right.1 hay) ht
    rw [Attempt.typeOf?, Attempt.lift_bind, hrun]
    change (Build.convertBoth x y t >>= f t : Attempt SemanticError ExprHandle).typeOf? g₂ = _
    rw [Attempt.typeOf?, Attempt.bind_of_ok hboth]
    exact hf t p g₃

end Operands

/-- An operator takes its operands by value and asks whether one of them is dependent. -/
theorem WellFormed.typeOf?_values (hg : g.WellFormed) (hl : g.contains l = true)
    (hr : g.contains r = true)
    {deferred resolved : ExprHandle → ExprHandle → Attempt SemanticError ExprHandle}
    {a b : Option TypeHandle}
    (ha : ∀ g' x y, g.Operands l r g' x y → (deferred x y).typeOf? g' = a)
    (hb : ∀ g' x y, g.Operands l r g' x y → (resolved x y).typeOf? g' = b) :
    Attempt.typeOf? (do
      let l ← Build.valueOf l
      let r ← Build.valueOf r
      if ← Build.eitherDependent l r then deferred l r else resolved l r) g =
    if g.eitherDependent (g.typeByValue l) (g.typeByValue r) then a else b := by
  have h := hg.operands_valueOf hl hr
  rw [Attempt.typeOf?_lift_bind, Attempt.typeOf?_lift_bind, Attempt.typeOf?_lift_bind,
    ← ha _ _ _ h, ← hb _ _ _ h, ← h.dependent hg hl hr]
  exact apply_ite (Attempt.typeOf? · _) _ _ _

/-- **The type of an arithmetic operation**: the common type of the operands by value, or a
placeholder if one of them is dependent. -/
theorem WellFormed.typeOf?_arithmetic (hg : g.WellFormed) (hl : g.contains l = true)
    (hr : g.contains r = true) {op : BinaryOp} (hop : op.isArithmetic = true) :
    (Build.arithmetic op l r).typeOf? g =
      if g.eitherDependent (g.typeByValue l) (g.typeByValue r) then some (Build.autoType g).1
      else (Build.commonType? (g.typeByValue l) (g.typeByValue r) g).1 := by
  simp only [Build.arithmetic, hop, Bool.not_true, Bool.false_eq_true, if_false]
  refine hg.typeOf?_values hl hr (fun g' x y h => ?_) fun g' x y h => ?_
  · obtain ⟨es, hes⟩ := h.exprs
    have hauto := Build.IgnoresExprs.autoType g es
    rw [← hes] at hauto
    rw [Attempt.typeOf?_lift_bind, Attempt.typeOf?_binary, hauto]
  · rw [Attempt.typeOf?_get_bind, Attempt.typeOf?_get_bind]
    have hcommon := h.typeOf?_common hg id none (f := fun t p => Build.binary op t p.1 p.2)
      (k := throw (Build.noCommonType (g'.exprType x) (g'.exprType y)))
      (fun t p => Attempt.typeOf?_binary op t p.1 p.2) fun _ => rfl
    refine hcommon.trans ?_
    cases (Build.commonType? (g.typeByValue l) (g.typeByValue r) g).1 with
    | none => rfl
    | some t => rfl

/-- **The type of a comparison** is `bool`, if the operands by value have a common type or the same
type, or if one of them is dependent. -/
theorem WellFormed.typeOf?_comparison (hg : g.WellFormed) (hl : g.contains l = true)
    (hr : g.contains r = true) {op : BinaryOp} (hop : op.isComparison = true) :
    (Build.comparison op l r).typeOf? g =
      if g.eitherDependent (g.typeByValue l) (g.typeByValue r) then some .bool
      else if (Build.commonType? (g.typeByValue l) (g.typeByValue r) g).1.isSome ∨
        g.typeByValue l = g.typeByValue r then some .bool
      else none := by
  simp only [Build.comparison, hop, Bool.not_true, Bool.false_eq_true, if_false]
  refine hg.typeOf?_values hl hr (fun g' x y h => ?_) fun g' x y h => ?_
  · exact Attempt.typeOf?_binary op .bool x y g'
  · rw [Attempt.typeOf?_get_bind, Attempt.typeOf?_get_bind]
    have hcommon := h.typeOf?_common hg (fun _ => .bool)
      (if g.typeByValue l = g.typeByValue r then some .bool else none)
      (f := fun _ p => Build.binary op .bool p.1 p.2)
      (k := if g'.exprType x = g'.exprType y then Build.binary op .bool x y
        else throw (Build.noCommonType (g'.exprType x) (g'.exprType y)))
      (fun t p => Attempt.typeOf?_binary op .bool p.1 p.2) fun g'' => by
        rw [h.left.2, h.right.2]
        split
        · exact Attempt.typeOf?_binary op .bool x y g''
        · rfl
    refine hcommon.trans ?_
    cases (Build.commonType? (g.typeByValue l) (g.typeByValue r) g).1 with
    | none => simp
    | some t => exact (if_pos (.inl rfl)).symm

theorem typeOf?_not_arithmetic (l r : ExprHandle) {op : BinaryOp} (hop : op.isArithmetic = false) :
    (Build.arithmetic op l r).typeOf? g = none := by
  rw [Build.arithmetic, hop]
  rfl

theorem typeOf?_not_comparison (l r : ExprHandle) {op : BinaryOp} (hop : op.isComparison = false) :
    (Build.comparison op l r).typeOf? g = none := by
  rw [Build.comparison, hop]
  rfl

/-- Arithmetic types are not dependent. -/
theorem WellFormed.isDependent_of_isArithmetic (hg : g.WellFormed) {t : TypeHandle}
    (ht : g.contains t = true) (h : (g.type t).isArithmetic = true) : g.isDependent t = false := by
  have hflags : g.typeFlags t = g.flagsOf (g.type t) := (hg.placed t ht).2.2
  rw [isDependent, hflags]
  cases hf : g.type t with
  | bool | int | float => rfl
  | _ => rw [hf] at h; cases h

end Graph

/-! ## The laws of operators -/

/-- The common type of two expressions by value. -/
def Build.commonOf? (l r : ExprHandle) : Build (Option TypeHandle) := do
  let l ← valueOf l
  let r ← valueOf r
  commonType? ((← get).exprType l) ((← get).exprType r)

namespace Graph

variable {g g' : Graph} {l r : ExprHandle} {t : TypeHandle}

theorem WellFormed.commonOf?_eq (hg : g.WellFormed) (hl : g.contains l = true)
    (hr : g.contains r = true) : (Build.commonOf? l r g).1 =
      (Build.commonType? (g.typeByValue l) (g.typeByValue r) g).1 :=
  (hg.operands_valueOf hl hr).commonType?_eq

/-- What it takes to have a common type. -/
theorem WellFormed.commonOf?_spec (hg : g.WellFormed) (hl : g.contains l = true)
    (hr : g.contains r = true) (h : Build.commonOf? l r g = (some t, g')) :
    g.Grows g' ∧ (g.type (g.typeByValue l)).isArithmetic = true ∧
      (g.type (g.typeByValue r)).isArithmetic = true ∧ ∃ k, g'.HasRank t k := by
  have hvalues := hg.operands_valueOf hl hr
  have hgrow := hvalues.grows
  have hw := hgrow.wellFormed hg
  have hcl := hg.contains_typeByValue hl
  have hcr := hg.contains_typeByValue hr
  have hranks := hw.commonType?_ranked (hgrow.contains hcl) (hgrow.contains hcr)
  have hsome := hw.commonTypeLaws.isSome_iff _ _ (hgrow.contains hcl) (hgrow.contains hcr)
  have hrun : Build.commonType? (g.typeByValue l) (g.typeByValue r)
      (Build.valueOf r (Build.valueOf l g).2).2 = (some t, g') := by
    rw [← h, ← hvalues.left.2, ← hvalues.right.2]
    rfl
  rw [Ranks, Build.Yields, hrun] at hranks
  rw [hrun, hgrow.extends.type hcl, hgrow.extends.type hcr] at hsome
  obtain ⟨hal, har⟩ := hsome.1 rfl
  exact ⟨hgrow.trans hranks.1, hal, har, hranks.2.2.exists_rank⟩

/-- An expression that is arithmetic by value is converted to a type that has a rank, also at a
later time. -/
theorem WellFormed.typeOf?_convert (hg : g.WellFormed) {e : ExprHandle} {k : ArithmeticRank}
    (he : g.contains e = true) (harith : (g.type (g.typeByValue e)).isArithmetic = true)
    (hgrow : g.Grows g') (ht : g'.HasRank t k) : (Build.convert e t).typeOf? g' = some t := by
  have hext := hgrow.extends
  rw [← hext.type (hg.contains_typeByValue he), ← hg.typeByValue_extend hext he] at harith
  obtain ⟨x, g'', hrun, -, -, htype⟩ :=
    (hgrow.wellFormed hg).convert_of_hasRank (hgrow.contains he) harith ht
  rw [Attempt.typeOf?, hrun]
  exact congrArg some htype

/-- What holds of the operators on two operands. -/
structure OperandLaws (g : Graph) (l r : ExprHandle) : Prop where
  /-- Both operands are converted to their common type, at any later time. -/
  converts : ∀ t g', Build.commonOf? l r g = (some t, g') → ∀ g'', g'.Evolves g'' →
    (Build.convert l t).typeOf? g'' = some t ∧ (Build.convert r t).typeOf? g'' = some t
  /-- Once there is a common type, arithmetic operators succeed and give that type, -/
  arithmetic : ∀ t op, (Build.commonOf? l r g).1 = some t → op.isArithmetic = true →
    (Build.arithmetic op l r).typeOf? g = some t
  /-- and comparisons succeed. -/
  comparison : ∀ t op, (Build.commonOf? l r g).1 = some t → op.isComparison = true →
    (Build.comparison op l r).typeOf? g = some .bool
  /-- Swapping the operands changes neither success nor the type of the result. -/
  arithmetic_swap : ∀ op, (Build.arithmetic op r l).typeOf? g = (Build.arithmetic op l r).typeOf? g
  comparison_swap : ∀ op, (Build.comparison op r l).typeOf? g = (Build.comparison op l r).typeOf? g

theorem eitherDependent_comm (g : Graph) (a b : TypeHandle) :
    g.eitherDependent b a = g.eitherDependent a b :=
  Bool.or_comm ..

/-- Operands that have a common type are not dependent. -/
theorem WellFormed.eitherDependent_of_commonOf? (hg : g.WellFormed) (hl : g.contains l = true)
    (hr : g.contains r = true) (h : (Build.commonOf? l r g).1 = some t) :
    g.eitherDependent (g.typeByValue l) (g.typeByValue r) = false := by
  obtain ⟨-, hal, har, -⟩ := hg.commonOf?_spec hl hr (Prod.ext h rfl)
  rw [eitherDependent, hg.isDependent_of_isArithmetic (hg.contains_typeByValue hl) hal,
    hg.isDependent_of_isArithmetic (hg.contains_typeByValue hr) har]
  rfl

/-- **Operators do not fail once there is a common type**, and they treat both operands alike. -/
theorem WellFormed.operandLaws (hg : g.WellFormed) (hl : g.contains l = true)
    (hr : g.contains r = true) : g.OperandLaws l r where
  converts t g' h g'' hev := by
    obtain ⟨hgrow, hal, har, k, ht⟩ := hg.commonOf?_spec hl hr h
    have hgrow' := hev.grows (hgrow.wellFormed hg)
    have hlater := ht.extend hgrow'.extends
    exact ⟨hg.typeOf?_convert hl hal (hgrow.trans hgrow') hlater,
      hg.typeOf?_convert hr har (hgrow.trans hgrow') hlater⟩
  arithmetic t op h hop := by
    rw [hg.typeOf?_arithmetic hl hr hop, hg.eitherDependent_of_commonOf? hl hr h,
      ← hg.commonOf?_eq hl hr, h]
    rfl
  comparison t op h hop := by
    rw [hg.typeOf?_comparison hl hr hop, hg.eitherDependent_of_commonOf? hl hr h,
      ← hg.commonOf?_eq hl hr, h]
    rfl
  arithmetic_swap op := by
    by_cases hop : op.isArithmetic = true
    · rw [hg.typeOf?_arithmetic hl hr hop, hg.typeOf?_arithmetic hr hl hop, eitherDependent_comm,
        hg.commonTypeLaws.comm _ _ (hg.contains_typeByValue hl) (hg.contains_typeByValue hr)]
    · rw [typeOf?_not_arithmetic l r (eq_false_of_ne_true hop),
        typeOf?_not_arithmetic r l (eq_false_of_ne_true hop)]
  comparison_swap op := by
    by_cases hop : op.isComparison = true
    · rw [hg.typeOf?_comparison hl hr hop, hg.typeOf?_comparison hr hl hop, eitherDependent_comm,
        hg.commonTypeLaws.comm _ _ (hg.contains_typeByValue hl) (hg.contains_typeByValue hr)]
      simp only [eq_comm]
    · rw [typeOf?_not_comparison l r (eq_false_of_ne_true hop),
        typeOf?_not_comparison r l (eq_false_of_ne_true hop)]

/-- **Common types and the operators that ask for them.**  Types have a common type exactly if both
are arithmetic, which is their least upper bound after promotion and depends neither on their order
nor on how they are grouped.  Expressions that have a common type by value are both converted to it,
so arithmetic operators and comparisons succeed on them, and swapping the operands changes neither
success nor the type of the result. -/
theorem Reachable.arithmetic_laws (hg : g.Reachable) :
    g.CommonTypeLaws ∧
    ∀ l r, g.contains l = true → g.contains r = true → g.OperandLaws l r :=
  ⟨hg.wellFormed.commonTypeLaws, fun _ _ hl hr => hg.wellFormed.operandLaws hl hr⟩

/-- The graph of the literal `true` and of the name of a variable of an unsigned type of 16 bits,
its expressions 0 and 1, where `int` has 8 bits.  The type of the variable is 3. -/
def mixedOperands : Graph :=
  let g := (Build.boolLiteral true (Graph.initial .empty 8)).2
  let g := (Build.intTypeOf false 16 g).2
  let g := (Build.variableDecl .globalName ⟨3⟩ none g).2
  ((Build.referenceTo ⟨1⟩).run g).2

theorem mixedOperands_reachable : mixedOperands.Reachable := by
  have hliteral := (Reachable.initial .empty 8).operation (.boolLiteral true)
  have hwide := hliteral.operation (x := Build.intTypeOf false 16) (.intTypeOf false 16)
  have hvar := hwide.operation (x := Build.variableDecl .globalName ⟨3⟩ none)
    (.variableDecl rfl rfl (by rintro _ ⟨⟩))
  exact hvar.operation (x := (Build.referenceTo ⟨1⟩).run) (.referenceTo rfl)

/-- The common type is that of the variable, in either order, and there is none of it and `void`. -/
theorem arithmetic_laws_mixedOperands :
    mixedOperands.Reachable ∧
    (mixedOperands.contains (⟨0⟩ : ExprHandle) = true ∧
      mixedOperands.contains (⟨1⟩ : ExprHandle) = true) ∧
    ((Build.commonType? .bool ⟨3⟩ mixedOperands).1 = some ⟨3⟩ ∧
      (Build.commonType? ⟨3⟩ .bool mixedOperands).1 = some ⟨3⟩ ∧
      (Build.commonType? ⟨3⟩ .void mixedOperands).1.isSome = false) ∧
    (Build.commonOf? ⟨0⟩ ⟨1⟩ mixedOperands).1 = some ⟨3⟩ ∧
    (Build.arithmetic .add ⟨0⟩ ⟨1⟩).typeOf? mixedOperands = some ⟨3⟩ ∧
    (Build.arithmetic .add ⟨1⟩ ⟨0⟩).typeOf? mixedOperands = some ⟨3⟩ ∧
    (Build.comparison .lt ⟨1⟩ ⟨0⟩).typeOf? mixedOperands = some .bool := by
  obtain ⟨hcommon, hoperands⟩ := mixedOperands_reachable.arithmetic_laws
  have hlaws := hoperands ⟨0⟩ ⟨1⟩ rfl rfl
  have htypes : (Build.commonType? .bool ⟨3⟩ mixedOperands).1 = some ⟨3⟩ := by decide +kernel
  have hvalues : (Build.commonOf? ⟨0⟩ ⟨1⟩ mixedOperands).1 = some ⟨3⟩ := by decide +kernel
  have hadd := hlaws.arithmetic ⟨3⟩ .add hvalues rfl
  have hless := hlaws.comparison ⟨3⟩ .lt hvalues rfl
  have hvoid : ¬ (Build.commonType? ⟨3⟩ .void mixedOperands).1.isSome = true := fun h => by
    cases ((hcommon.isSome_iff ⟨3⟩ .void rfl rfl).1 h).2
  exact ⟨mixedOperands_reachable, ⟨rfl, rfl⟩,
    ⟨htypes, (hcommon.comm .bool ⟨3⟩ rfl rfl).trans htypes, eq_false_of_ne_true hvoid⟩,
    hvalues, hadd, (hlaws.arithmetic_swap .add).trans hadd, (hlaws.comparison_swap .lt).trans hless⟩

end Graph
end SemanticCore
