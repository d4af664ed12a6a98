import SemanticCore.Conversion
import SemanticCore.Proofs.Template.Signature

/-!
# Typing rules

`Graph.Typing free g f t` says that an expression of form `f` may have the type `t`.  There is one
rule for each way in which an expression is resolved, so a kind of expression that can be deferred
until its template is instantiated has a second rule: the deferred expression has a placeholder for
its type, or is compared or converted as it is.

Conversions can also be built without any regard to types.  Where they are, `free` holds, and a
conversion may have any type.

* `Graph.Typing.extend` — an expression stays well typed when the graph is extended.
* `Graph.WellTyped` — all expressions of the graph are well typed.
* `Graph.GrowsTyped` — the graph grew, and what was added to it is well typed.
-/

set_option autoImplicit false
namespace SemanticCore
namespace Graph

/-- An expression of the given form may have the given type. -/
inductive Typing (free : Prop) (g : Graph) : ExprForm → TypeHandle → Prop
  | boolean (value : Bool) : Typing free g (.boolean value) .bool
  /-- The type of an integer literal is chosen where it is written. -/
  | integer (value : Int) (t : TypeHandle) : Typing free g (.integer value) t
  | reference {d : DeclHandle} {t declared : TypeHandle} (hd : g.declaredType? d = some declared)
    (ht : g.type t = .reference declared) : Typing free g (.reference d) t
  | templateRef {d : DeclHandle} {t : TypeHandle} {n : UInt32} (hd : g.isTemplateDecl d = true)
    (ht : g.type t = .auto n) : Typing free g (.templateRef d) t
  | check {c : DeclHandle} (args : List Term) (hc : g.isConceptDecl c = true) :
    Typing free g (.check c args) .bool
  | logical {op : BinaryOp} {l r : ExprHandle} (hop : op.isLogical = true)
    (hl : g.exprType l = .bool) (hr : g.exprType r = .bool) : Typing free g (.binary op l r) .bool
  | comparison {op : BinaryOp} {l r : ExprHandle} (hop : op.isComparison = true)
    (h : g.exprType l = g.exprType r) : Typing free g (.binary op l r) .bool
  | deferredComparison {op : BinaryOp} {l r : ExprHandle} (hop : op.isComparison = true)
    (h : (g.isTypeDependent l || g.isTypeDependent r) = true) : Typing free g (.binary op l r) .bool
  | arithmetic {op : BinaryOp} {l r : ExprHandle} {t : TypeHandle} (hop : op.isArithmetic = true)
    (ht : ((g.type t).isInt || (g.type t).isFloat) = true) (hl : g.exprType l = t)
    (hr : g.exprType r = t) : Typing free g (.binary op l r) t
  | deferredArithmetic {op : BinaryOp} {l r : ExprHandle} {t : TypeHandle} {n : UInt32}
    (hop : op.isArithmetic = true) (h : (g.isTypeDependent l || g.isTypeDependent r) = true)
    (ht : g.type t = .auto n) : Typing free g (.binary op l r) t
  | not {x : ExprHandle} (hx : g.exprType x = .bool) : Typing free g (.not x) .bool
  /-- A call of a declaration of function type, of whatever kind the declaration is. -/
  | call {callee : ExprHandle} {d : DeclHandle} {args : List ExprHandle} {fn ret : TypeHandle}
    {params : List TypeHandle} (hf : (g.expr callee).form = .reference d)
    (hd : g.declaredType? d = some fn) (hfn : g.type fn = .function params ret)
    (hlen : params.length = args.length)
    (hdep : (g.isTypeDependent callee || args.any g.isTypeDependent) = false) :
    Typing free g (.call callee args) ret
  /-- A call of a function template.  Deducing its arguments adds nothing to the graph: all that it
  builds has been there since the call was resolved. -/
  | templateCall {callee : ExprHandle} {template pattern spec : DeclHandle} {args : List ExprHandle}
    {tparams params : List DeclHandle} {constraint : Option ExprHandle} {ret t : TypeHandle}
    {s : Substitution} (hf : (g.expr callee).form = .templateRef template)
    (htemplate : (g.decl template).form = .template tparams pattern constraint)
    (hpattern : g.functionPattern? template = some (params, ret))
    (hdeduce : Build.deduce tparams params args g = (.ok s, g))
    (hspec : g.IsSpecialization template s spec)
    (ht : (g.declaredType? spec).bind g.functionRet? = some t) : Typing free g (.call callee args) t
  | deferredCall {callee : ExprHandle} {args : List ExprHandle} {t : TypeHandle} {n : UInt32}
    (h : (g.isTypeDependent callee || args.any g.isTypeDependent) = true)
    (ht : g.type t = .auto n) : Typing free g (.call callee args) t
  | value {x : ExprHandle} (hx : g.isReference (g.exprType x) = true) :
    Typing free g (.conversion .value x) (g.valueType (g.exprType x))
  | conversion {kind : ConversionKind} {x : ExprHandle} {t : TypeHandle}
    (h : g.conversionKind? (g.exprType x) t = some kind) : Typing free g (.conversion kind x) t
  | deferredConversion (x : ExprHandle) (t : TypeHandle) :
    Typing free g (.conversion .dependent x) t
  | freeConversion (kind : ConversionKind) (x : ExprHandle) (t : TypeHandle) (h : free) :
    Typing free g (.conversion kind x) t
  | synthetic {d : DeclHandle} {t : TypeHandle} (hd : g.declaredType? d = some t) :
    Typing free g (.synthetic d) t
  | requires (tparams params : List DeclHandle) (reqs : List ReqHandle) :
    Typing free g (.requires tparams params reqs) .bool

/-! ## Reading the same in an extension -/

variable {free : Prop} {g g' g'' : Graph}

theorem WellFormed.isDependent_extend (hg : g.WellFormed) (h : g.Extends g') {t : TypeHandle}
    (ht : g.contains t = true) : g'.isDependent t = g.isDependent t := by
  rw [isDependent, isDependent, h.typeFlags hg.flags_size ht]

theorem WellFormed.isTypeDependent_extend (hg : g.WellFormed) (h : g.Extends g') {e : ExprHandle}
    (he : g.contains e = true) : g'.isTypeDependent e = g.isTypeDependent e := by
  rw [isTypeDependent, isTypeDependent, h.exprType he,
    hg.isDependent_extend h (hg.contains_exprType he)]

theorem WellFormed.any_isTypeDependent_extend (hg : g.WellFormed) (h : g.Extends g')
    {es : List ExprHandle} (hes : ∀ e ∈ es, g.contains e = true) :
    es.any g'.isTypeDependent = es.any g.isTypeDependent := by
  rw [Bool.eq_iff_iff, List.any_eq_true, List.any_eq_true]
  refine exists_congr fun e => and_congr_right fun he => ?_
  rw [hg.isTypeDependent_extend h (hes e he)]

/-- The kind of a conversion is read off the two types and what they point to. -/
theorem WellFormed.conversionKind?_extend (hg : g.WellFormed) (h : g.Extends g')
    {s t : TypeHandle} (hs : g.contains s = true) (ht : g.contains t = true) :
    g'.conversionKind? s t = g.conversionKind? s t := by
  have htarget : ∀ {x y : TypeHandle}, g.contains x = true → g.type x = .pointer y →
      g'.unqualified y = g.unqualified y ∧ g'.quals y = g.quals y := by
    intro x y hx hf
    have hy : g.contains y = true :=
      hg.contains_component hx (by rw [hf]; exact List.mem_cons_self)
    rw [unqualified, unqualified, quals, quals, h.type hy]
    exact ⟨rfl, rfl⟩
  rw [conversionKind?, conversionKind?, h.type hs, h.type ht]
  cases hfs : g.type s with
  | pointer x =>
    cases hft : g.type t with
    | pointer y =>
      obtain ⟨hx, hxq⟩ := htarget hs hfs
      obtain ⟨hy, hyq⟩ := htarget ht hft
      dsimp only
      rw [hx, hxq, hy, hyq]
    | _ => rfl
  | _ => cases g.type t <;> rfl

theorem Extends.functionRetOf? (h : g.Extends g') {d : DeclHandle} {t : TypeHandle}
    (hd : (g.declaredType? d).bind g.functionRet? = some t) :
    (g'.declaredType? d).bind g'.functionRet? = some t := by
  obtain ⟨fn, hfn, ht⟩ := Option.bind_eq_some_iff.1 hd
  refine Option.bind_eq_some_iff.2 ⟨fn, ?_, functionRet?_extend h ht⟩
  exact (h.declaredType? (contains_of_declaredType? hfn)).trans hfn

/-! ## Typing in an extension -/

/-- **An expression stays well typed when the graph is extended.** -/
theorem Typing.extend (hg : g.WellFormed) (h : g.Extends g') {f : ExprForm} {t : TypeHandle}
    (hfits : Expr.Fits g ⟨f, t⟩) (ht : Typing free g f t) : Typing free g' f t := by
  obtain ⟨hct, hfits⟩ := hfits
  cases ht with
  | boolean value => exact .boolean value
  | integer value => exact .integer value t
  | reference hd hr =>
    exact .reference ((h.declaredType? (contains_of_declaredType? hd)).trans hd)
      ((h.type hct).trans hr)
  | templateRef hd hn =>
    exact .templateRef ((h.isTemplateDecl (contains_of_isTemplateDecl hd)).trans hd)
      ((h.type hct).trans hn)
  | check args hc =>
    exact .check args ((h.isConceptDecl (contains_of_isConceptDecl hc)).trans hc)
  | logical hop hl hr =>
    exact .logical hop ((h.exprType hfits.1).trans hl) ((h.exprType hfits.2).trans hr)
  | comparison hop heq =>
    exact .comparison hop (by rw [h.exprType hfits.1, h.exprType hfits.2, heq])
  | deferredComparison hop hdep =>
    refine .deferredComparison hop ?_
    rwa [hg.isTypeDependent_extend h hfits.1, hg.isTypeDependent_extend h hfits.2]
  | arithmetic hop hform hl hr =>
    exact .arithmetic hop (by rwa [h.type hct]) ((h.exprType hfits.1).trans hl)
      ((h.exprType hfits.2).trans hr)
  | deferredArithmetic hop hdep hn =>
    refine .deferredArithmetic hop ?_ ((h.type hct).trans hn)
    rwa [hg.isTypeDependent_extend h hfits.1, hg.isTypeDependent_extend h hfits.2]
  | not hx => exact .not ((h.exprType hfits).trans hx)
  | call hform hd hfn hlen hdep =>
    have hcfn := hg.contains_declaredType? hd
    refine .call (by rwa [h.expr hfits.1])
      ((h.declaredType? (contains_of_declaredType? hd)).trans hd) ((h.type hcfn).trans hfn) hlen ?_
    rwa [hg.isTypeDependent_extend h hfits.1, hg.any_isTypeDependent_extend h hfits.2]
  | templateCall hform htemplate hpattern hdeduce hspec hret =>
    have hparams := hg.contains_patternParams hpattern
    exact .templateCall (by rwa [h.expr hfits.1]) (h.template htemplate)
      (h.functionPattern? hpattern)
      (hg.deduce_again (hg.contains_template htemplate).1 hparams hfits.2 hdeduce h)
      (hspec.extend hg h) (h.functionRetOf? hret)
  | deferredCall hdep hn =>
    refine .deferredCall ?_ ((h.type hct).trans hn)
    rwa [hg.isTypeDependent_extend h hfits.1, hg.any_isTypeDependent_extend h hfits.2]
  | @value x hx =>
    have hcx := hg.contains_exprType hfits
    have hsame := hg.valueType_extend h hcx
    rw [← h.exprType hfits] at hsame ⊢
    rw [← hsame]
    exact .value (by rwa [isReference, h.exprType hfits, h.type hcx])
  | conversion hkind =>
    refine .conversion ?_
    rwa [h.exprType hfits, hg.conversionKind?_extend h (hg.contains_exprType hfits) hct]
  | deferredConversion x => exact .deferredConversion x t
  | freeConversion kind x _ hfree => exact .freeConversion kind x t hfree
  | synthetic hd => exact .synthetic ((h.declaredType? (contains_of_declaredType? hd)).trans hd)
  | requires tparams params reqs => exact .requires tparams params reqs

/-! ## Graphs whose expressions are well typed -/

/-- Every expression of the graph is well typed. -/
def WellTyped (free : Prop) (g : Graph) : Prop :=
  ∀ e : ExprHandle, g.contains e = true → Typing free g (g.expr e).form (g.expr e).type

/-- The graph grew, and every expression that was added is well typed. -/
structure GrowsTyped (free : Prop) (g g' : Graph) : Prop where
  grows : g.Grows g'
  typed : ∀ e : ExprHandle, g'.contains e = true →
    g.contains e = true ∨ Typing free g' (g'.expr e).form (g'.expr e).type

theorem GrowsTyped.refl (g : Graph) : g.GrowsTyped free g :=
  ⟨.refl g, fun _ he => .inl he⟩

/-- A graph that has the expressions that it had before has none that is ill typed. -/
theorem GrowsTyped.of_exprs (h : g.Grows g') (hexprs : g'.exprs = g.exprs) :
    g.GrowsTyped free g' := by
  refine ⟨h, fun e he => .inl ?_⟩
  rw [contains_iff] at he ⊢
  rwa [show g'.count .expr = g.count .expr from congrArg Array.size hexprs] at he

/-- An expression of the first graph that is well typed there is well typed in the second one. -/
theorem WellFormed.typing_extend (hg : g.WellFormed) (h : g.Extends g') {e : ExprHandle}
    (he : g.contains e = true) (ht : Typing free g (g.expr e).form (g.expr e).type) :
    Typing free g' (g'.expr e).form (g'.expr e).type := by
  rw [h.expr he]
  exact ht.extend hg h (hg.placed e he).1

theorem GrowsTyped.trans (hg : g.WellFormed) (h : g.GrowsTyped free g')
    (h' : g'.GrowsTyped free g'') : g.GrowsTyped free g'' := by
  refine ⟨h.grows.trans h'.grows, fun e he => ?_⟩
  rcases h'.typed e he with he' | ht
  · exact (h.typed e he').imp_right
      ((h.grows.wellFormed hg).typing_extend h'.grows.extends he')
  · exact .inr ht

/-- **A graph stays well typed when what is added to it is.** -/
theorem WellTyped.grows (hg : g.WellFormed) (h : g.GrowsTyped free g') (hw : g.WellTyped free) :
    g'.WellTyped free := fun e he =>
  (h.typed e he).elim (fun he' => hg.typing_extend h.grows.extends he' (hw e he')) id

end Graph
end SemanticCore
