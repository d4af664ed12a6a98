import SemanticCore.Constraint.Form
import SemanticCore.Decl.Form
import SemanticCore.Expr.Form
import SemanticCore.Name
import SemanticCore.Proofs.Graph.Yields

/-!
# What the constructors make

A constructor that is handed nodes of the graph adds a node that fits it, or fails.
`Build.Makes` and `Attempt.Makes` say this of a computation that returns a handle: it only adds to
the graph, and the handle it returns names a node of the graph that it leaves.
-/

set_option autoImplicit false
namespace SemanticCore

open SemanticCore.Graph

variable {g : Graph} {c : Category} {ε : Type}

/-- The computation adds to the graph and returns a node of it. -/
abbrev Build.Makes (g : Graph) (x : Build (Handle c)) : Prop :=
  Build.Yields g x fun h g' => g'.contains h = true

/-- The computation adds to the graph, and returns a node of it if it does not fail. -/
abbrev Attempt.Makes (g : Graph) (x : Attempt ε (Handle c)) : Prop :=
  Attempt.Yields g x fun h g' => g'.contains h = true

/-! ## The cases of qualified types -/

theorem Qualifiers.isNone_union {a b : Qualifiers} (h : a.isNone = false) :
    (a.union b).isNone = false := by
  rcases a with ⟨_ | _, _ | _⟩ <;> rcases b with ⟨_ | _, _ | _⟩ <;> first | rfl | cases h

namespace Graph

/-- Qualifiers on a type that is neither a reference nor qualified. -/
theorem qualifiedType_plain {t : TypeHandle} (quals : Qualifiers)
    (hr : (g.type t).isReference = false) (hq : (g.type t).isQualified = false) :
    Build.qualifiedType t quals g =
      (if quals.isNone then pure t else Build.type (.qualified t quals) : Build TypeHandle) g := by
  rw [Build.qualifiedType, Build.get_bind]
  cases hf : g.type t with
  | reference s => rw [hf] at hr; cases hr
  | qualified base own => rw [hf] at hq; cases hq
  | _ => rfl

/-- More qualifiers on a qualified type. -/
theorem qualifiedType_qualified {t base : TypeHandle} {own : Qualifiers} (quals : Qualifiers)
    (hf : g.type t = .qualified base own) :
    Build.qualifiedType t quals g =
      (if own.covers quals then pure t
        else Build.type (.qualified base (own.union quals)) : Build TypeHandle) g := by
  rw [Build.qualifiedType, Build.get_bind, hf]

/-- A reference takes no qualifiers. -/
theorem qualifiedType_reference {t target : TypeHandle} (quals : Qualifiers)
    (hf : g.type t = .reference target) : Build.qualifiedType t quals g = (t, g) := by
  rw [Build.qualifiedType, Build.get_bind, hf]
  rfl

/-- The types of object parameters are read off without changing the graph. -/
theorem objectParamTypes_eq {params : List DeclHandle} {types : List TypeHandle}
    (hp : params.map g.objectParamType? = types.map some) :
    Build.objectParamTypes params g = (.ok types, g) := by
  rw [Build.objectParamTypes, Attempt.get_bind]
  induction params generalizing types with
  | nil => rw [List.map_eq_nil_iff.1 hp.symm]; rfl
  | cons p params ih =>
    cases types with
    | nil => cases hp
    | cons t types =>
      obtain ⟨ht, hrest⟩ := List.cons.inj hp
      have hpure : (pure t : Attempt BuildError TypeHandle) g = (.ok t, g) := rfl
      rw [List.mapM_cons, ht, Attempt.bind_of_ok hpure, Attempt.bind_of_ok (ih hrest)]
      rfl

/-- Parameters that are not all object parameters have no types to be read off. -/
theorem objectParamTypes_error {params : List DeclHandle}
    (hp : ∃ p ∈ params, g.objectParamType? p = none) :
    ∃ e, Build.objectParamTypes params g = (.error e, g) := by
  rw [Build.objectParamTypes, Attempt.get_bind]
  induction params with
  | nil => simp at hp
  | cons p params ih =>
    rw [List.mapM_cons]
    cases ht : g.objectParamType? p with
    | none => exact ⟨_, rfl⟩
    | some t =>
      obtain ⟨p', hp', hnone⟩ := hp
      have hmem : p' ∈ params := (List.mem_cons.1 hp').resolve_left fun h => by
        rw [← h, hnone] at ht
        cases ht
      obtain ⟨e, he⟩ := ih ⟨p', hmem, hnone⟩
      have hpure : (pure t : Attempt BuildError TypeHandle) g = (.ok t, g) := rfl
      rw [Attempt.bind_of_ok hpure, Attempt.bind_of_error he]
      exact ⟨e, rfl⟩

theorem map_eq_map_some {α β : Type} {f : α → Option β} {as : List α}
    (h : ∀ a ∈ as, f a ≠ none) : as.map f = (as.filterMap f).map some := by
  induction as with
  | nil => rfl
  | cons a as ih =>
    have htail := ih fun x hx => h x (List.mem_cons_of_mem _ hx)
    cases ha : f a with
    | none => exact absurd ha (h a List.mem_cons_self)
    | some b => rw [List.map_cons, List.filterMap_cons_some ha, List.map_cons, ha, htail]

theorem WellFormed.yields_objectParamTypes (hg : g.WellFormed) (params : List DeclHandle) :
    Attempt.Yields g (Build.objectParamTypes params) fun ts g' =>
      params.map g'.objectParamType? = ts.map some ∧ ∀ t ∈ ts, g'.contains t = true := by
  rw [Attempt.Yields, Build.Yields]
  by_cases hp : ∃ p ∈ params, g.objectParamType? p = none
  · obtain ⟨e, he⟩ := objectParamTypes_error hp
    rw [he]
    exact ⟨.refl g, by rintro _ ⟨⟩⟩
  · have hsome : ∀ p ∈ params, g.objectParamType? p ≠ none := fun p hmem hnone =>
      hp ⟨p, hmem, hnone⟩
    have hall := map_eq_map_some hsome
    rw [objectParamTypes_eq hall]
    refine ⟨.refl g, ?_⟩
    rintro _ ⟨⟩
    refine ⟨hall, fun t ht => ?_⟩
    obtain ⟨p, -, hpt⟩ := List.mem_filterMap.1 ht
    exact hg.contains_objectParamType? hpt

end Graph

/-- The type is an `auto`, whatever its number. -/
theorem Build.Yields.autoType : Build.Yields g Build.autoType fun t g' =>
    g'.contains t = true ∧ ∃ n, g'.type t = .auto n :=
  have ht := type_returned (.auto g.nextPlaceholder) (Build.fresh g).2
  ⟨.of_addition .autoType, ht.1, _, ht.2⟩

namespace Build.Makes

theorem name {f : NameForm} (hf : f.Fits g) : Makes g (Build.name f) :=
  (Yields.name hf).mono fun _ _ h => h.1

theorem type {f : TypeForm} (hf : f.Fits g) : Makes g (Build.type f) :=
  (Yields.type hf).mono fun _ _ h => h.1

theorem expr {f : ExprForm} {t : TypeHandle} (hf : Expr.Fits g ⟨f, t⟩) :
    Makes g (Build.expr f t) :=
  (Yields.expr hf).mono fun _ _ h => h.1

theorem decl {n : NameHandle} {f : DeclForm} (hn : g.contains n = true) (hf : f.Fits g) :
    Makes g (Build.decl n f) :=
  (Yields.decl hn hf).mono fun _ _ h => h.1

theorem constraint {f : ConsForm} (hf : f.Fits g) : Makes g (Build.constraint f) :=
  (Yields.constraint hf).mono fun _ _ h => h.1

/-! ## Names and types -/

theorem identifier (hg : g.WellFormed) (s : String) : Makes g (Build.identifier s) :=
  .bind hg (.symbol s) fun _ _ _ _ hs => name (f := .simple _) hs

theorem placeholderName : Makes g Build.placeholderName :=
  ⟨.of_addition .placeholderName,
    (name_returned (.placeholder g.nextPlaceholder) (Build.fresh g).2).1⟩

theorem autoType : Makes g Build.autoType :=
  Yields.autoType.mono fun _ _ h => h.1

theorem declautoType : Makes g Build.declautoType :=
  ⟨.of_addition .declautoType,
    (type_returned (.declauto g.nextPlaceholder) (Build.fresh g).2).1⟩

theorem intTypeOf (signed : Bool) (precision : UInt16) :
    Makes g (Build.intTypeOf signed precision) :=
  type (f := .int signed precision) trivial

theorem intType : Makes g Build.intType :=
  intTypeOf true g.intPrecision

theorem uintType : Makes g Build.uintType :=
  intTypeOf false g.intPrecision

theorem functionTypeOf {params : List TypeHandle} {ret : TypeHandle}
    (hp : ∀ p ∈ params, g.contains p = true) (hr : g.contains ret = true) :
    Makes g (Build.functionTypeOf params ret) :=
  type (f := .function params ret) ⟨hp, hr⟩

/-- The normal form of qualified types is what makes a qualified type fit. -/
theorem qualifiedType (hg : g.WellFormed) {t : TypeHandle} (quals : Qualifiers)
    (ht : g.contains t = true) : Makes g (Build.qualifiedType t quals) := by
  have hfits := (hg.placed t ht).1
  cases hr : (g.type t).isReference with
  | true =>
    cases hf : g.type t with
    | reference target => exact .congr (qualifiedType_reference quals hf) (.pure ht)
    | _ => rw [hf] at hr; cases hr
  | false =>
    cases hq : (g.type t).isQualified with
    | true =>
      cases hf : g.type t with
      | qualified base own =>
        rw [hf] at hfits
        refine .congr (qualifiedType_qualified quals hf) ?_
        split
        · exact .pure ht
        · exact type (f := .qualified base (own.union quals))
            ⟨hfits.1, hfits.2.1, hfits.2.2.1, Qualifiers.isNone_union hfits.2.2.2⟩
      | _ => rw [hf] at hq; cases hq
    | false =>
      refine .congr (qualifiedType_plain quals hr hq) ?_
      split
      · exact .pure ht
      · next hn => exact type (f := .qualified t quals) ⟨ht, hr, hq, eq_false_of_ne_true hn⟩

/-! ## Expressions and declarations -/

theorem boolLiteral (hg : g.WellFormed) (value : Bool) : Makes g (Build.boolLiteral value) :=
  expr (f := .boolean value) ⟨hg.contains_bool, rfl⟩

theorem integerLiteral {t : TypeHandle} (value : Int) (ht : g.contains t = true) :
    Makes g (Build.integerLiteral t value) :=
  expr (f := .integer value) ⟨ht, trivial⟩

theorem binary (op : BinaryOp) {t : TypeHandle} {lhs rhs : ExprHandle}
    (ht : g.contains t = true) (hl : g.contains lhs = true) (hr : g.contains rhs = true) :
    Makes g (Build.binary op t lhs rhs) :=
  expr (f := .binary op lhs rhs) ⟨ht, hl, hr⟩

theorem negation {t : TypeHandle} {x : ExprHandle} (ht : g.contains t = true)
    (hx : g.contains x = true) : Makes g (Build.negation t x) :=
  expr (f := .not x) ⟨ht, hx⟩

theorem call {t : TypeHandle} {callee : ExprHandle} {args : List ExprHandle}
    (ht : g.contains t = true) (hc : g.contains callee = true)
    (ha : ∀ a ∈ args, g.contains a = true) : Makes g (Build.call t callee args) :=
  expr (f := .call callee args) ⟨ht, hc, ha⟩

theorem conversion (kind : ConversionKind) {t : TypeHandle} {x : ExprHandle}
    (ht : g.contains t = true) (hx : g.contains x = true) : Makes g (Build.conversion kind t x) :=
  expr (f := .conversion kind x) ⟨ht, hx⟩

theorem requiresExpr (hg : g.WellFormed) {tparams params : List DeclHandle} {reqs : List ReqHandle}
    (ht : ∀ d ∈ tparams, g.contains d = true) (hp : ∀ d ∈ params, g.contains d = true)
    (hr : ∀ r ∈ reqs, g.contains r = true) : Makes g (Build.requiresExpr tparams params reqs) :=
  expr (f := .requires tparams params reqs) ⟨hg.contains_bool, rfl, ht, hp, hr⟩

theorem variableDecl {n : NameHandle} {t : TypeHandle} {i : Option InitHandle}
    (hn : g.contains n = true) (ht : g.contains t = true)
    (hi : ∀ x, i = some x → g.contains x = true) : Makes g (Build.variableDecl n t i) :=
  decl hn (f := .var t i) ⟨ht, hi⟩

theorem classDecl {n : NameHandle} (hn : g.contains n = true) : Makes g (Build.classDecl n) :=
  decl hn (f := .ofClass none) fun _ h => by cases h

theorem objectParam {n : NameHandle} {t : TypeHandle} (hn : g.contains n = true)
    (ht : g.contains t = true) : Makes g (Build.objectParam n t) :=
  decl hn (f := .objectParam t) ht

/-- A template has the name of its pattern, which is in the graph since the pattern is. -/
theorem templateDecl (hg : g.WellFormed) {params : List DeclHandle} {pattern : DeclHandle}
    {constraint : Option ExprHandle} (hp : ∀ d ∈ params, g.contains d = true)
    (hd : g.contains pattern = true) (hc : ∀ e, constraint = some e → g.contains e = true) :
    Makes g (Build.templateDecl params pattern constraint) :=
  .get_bind (decl (hg.placed pattern hd).1 (f := .template params pattern constraint) ⟨hp, hd, hc⟩)

theorem conceptDecl {n : NameHandle} {params : List DeclHandle} {definition : Option DefHandle}
    (hn : g.contains n = true) (hp : ∀ d ∈ params, g.contains d = true)
    (hd : ∀ x, definition = some x → g.contains x = true) :
    Makes g (Build.conceptDecl n params definition) :=
  decl hn (f := .concept params definition) ⟨hp, hd⟩

theorem conceptOfExpr (hg : g.WellFormed) {n : NameHandle} {params : List DeclHandle}
    {e : ExprHandle} (hn : g.contains n = true) (hp : ∀ d ∈ params, g.contains d = true)
    (he : g.contains e = true) : Makes g (Build.conceptOfExpr n params e) :=
  .bind hg (.defn (f := .expr e) he) fun _ _ hgrow _ hd =>
    conceptDecl (hgrow.contains hn) (fun d hmem => hgrow.contains (hp d hmem))
      (by rintro _ ⟨⟩; exact hd)

end Build.Makes

/-! ## Constructors that check what they are given -/

namespace Attempt.Makes

/-- A constructor that is guarded by a check. -/
theorem guarded {b : Bool} {x : Attempt ε (Handle c)} (e : ε)
    (hx : b = true → Makes g x) : Makes g (if b = true then x else throw e) := by
  split
  · next hb => exact hx hb
  · exact .throw e

theorem templateName {d : DeclHandle} {args : List Term} (ha : ∀ a ∈ args, a.Fits g) :
    Makes g (Build.templateName d args) :=
  .get_bind (guarded _ fun hd => .lift (Build.Makes.name (f := .template d args) ⟨hd, ha⟩))

theorem conceptName {d : DeclHandle} {args : List Term} (ha : ∀ a ∈ args, a.Fits g) :
    Makes g (Build.conceptName d args) :=
  .get_bind (guarded _ fun hd => .lift (Build.Makes.name (f := .concept d args) ⟨hd, ha⟩))

theorem classType (d : DeclHandle) : Makes g (Build.classType d) :=
  .get_bind (guarded _ fun hd => .lift (Build.Makes.type (f := .ofClass d) hd))

theorem typenameType (d : DeclHandle) : Makes g (Build.typenameType d) :=
  .get_bind (guarded _ fun hd => .lift (Build.Makes.type (f := .typename d) hd))

theorem conceptConstraint {d : DeclHandle} {args : List Term} (ha : ∀ a ∈ args, a.Fits g) :
    Makes g (Build.conceptConstraint d args) :=
  .get_bind (guarded _ fun hd => .lift (Build.Makes.constraint (f := .concept d args) ⟨hd, ha⟩))

theorem conceptCheck (hg : g.WellFormed) {d : DeclHandle} {args : List Term}
    (ha : ∀ a ∈ args, a.Fits g) : Makes g (Build.conceptCheck d args) :=
  .get_bind (guarded _ fun hd =>
    .lift (Build.Makes.expr (f := .check d args) ⟨hg.contains_bool, hd, rfl, ha⟩))

theorem referenceTo (hg : g.WellFormed) (d : DeclHandle) : Makes g (Build.referenceTo d) := by
  refine .get_bind ?_
  cases hd : g.declaredType? d with
  | none => exact .throw _
  | some t =>
    have ht := hg.contains_declaredType? hd
    refine .bind hg (.lift (Build.Yields.type (f := .reference t) ht)) fun r g₁ hgrow _ hr => ?_
    refine .lift (Build.Makes.expr (f := .reference d) ⟨hr.1, t, ?_, hr.2⟩)
    exact (hgrow.extends.declaredType? (contains_of_declaredType? hd)).trans hd

theorem templateReference (hg : g.WellFormed) (d : DeclHandle) :
    Makes g (Build.templateReference d) := by
  refine .get_bind (guarded _ fun hd => ?_)
  refine .bind hg (.lift .autoType) fun t g₁ hgrow _ ht => ?_
  refine .lift (Build.Makes.expr (f := .templateRef d) ⟨ht.1, ?_, ht.2⟩)
  exact (hgrow.extends.isTemplateDecl (contains_of_isTemplateDecl hd)).trans hd

theorem synthesizedValue (hg : g.WellFormed) (d : DeclHandle) :
    Makes g (Build.synthesizedValue d) := by
  refine .get_bind ?_
  cases hd : g.declaredType? d with
  | none => exact .throw _
  | some t => exact .lift (Build.Makes.expr (f := .synthetic d) ⟨hg.contains_declaredType? hd, hd⟩)

theorem callTo (hg : g.WellFormed) {t : TypeHandle} {d : DeclHandle} {args : List ExprHandle}
    (ht : g.contains t = true) (ha : ∀ a ∈ args, g.contains a = true) :
    Makes g (Build.callTo t d args) :=
  .bind hg (referenceTo hg d) fun _ _ hgrow _ hc =>
    .lift (Build.Makes.call (hgrow.contains ht) hc fun a hmem => hgrow.contains (ha a hmem))

end Attempt.Makes

/-! ## Functions -/

namespace Attempt.Yields

/-- The type of a function is made of the types of its parameters. -/
theorem functionType (hg : g.WellFormed) {params : List DeclHandle} {ret : TypeHandle}
    (hr : g.contains ret = true) :
    Attempt.Yields g (Build.functionType params ret) fun t g' => g'.contains t = true ∧
      ∃ ts, g'.type t = .function ts ret ∧ params.map g'.objectParamType? = ts.map some := by
  refine .bind hg (hg.yields_objectParamTypes params) fun ts g₁ hgrow hg₁ hts => .lift ?_
  have hfun := Build.Yields.type (f := .function ts ret) ⟨hts.2, hgrow.contains hr⟩
  refine ⟨hfun.1, hfun.2.1, ts, hfun.2.2, ?_⟩
  rw [← hts.1]
  exact List.map_congr_left fun p hp =>
    hfun.1.extends.objectParamType? (contains_of_map_objectParamType? hts.1 hp)

theorem functionDecl (hg : g.WellFormed) {n : NameHandle} {params : List DeclHandle}
    {ret : TypeHandle} (hn : g.contains n = true) (hr : g.contains ret = true) :
    Attempt.Yields g (Build.functionDecl n params ret) fun d g' => g'.contains d = true ∧
      ∃ t ts, g'.decl d = ⟨n, none, .function t params none⟩ ∧ g'.type t = .function ts ret ∧
        params.map g'.objectParamType? = ts.map some := by
  refine .bind hg (functionType hg hr) fun t g₁ hgrow _ ⟨ht, ts, hts, hp⟩ => .lift ?_
  obtain ⟨hgrow', hd, hform⟩ := Build.Yields.decl (hgrow.contains hn)
    (f := .function t params none) ⟨⟨ts, ret, hts, hp⟩, fun _ h => by cases h⟩
  refine ⟨hgrow', hd, t, ts, hform, (hgrow'.extends.type ht).trans hts, ?_⟩
  rw [← hp]
  exact List.map_congr_left fun p hmem =>
    hgrow'.extends.objectParamType? (contains_of_map_objectParamType? hp hmem)

end Attempt.Yields

theorem Attempt.Makes.functionType (hg : g.WellFormed) {params : List DeclHandle}
    {ret : TypeHandle} (hr : g.contains ret = true) :
    Attempt.Makes g (Build.functionType params ret) :=
  (Attempt.Yields.functionType hg hr).mono fun _ _ h => h.1

theorem Attempt.Makes.functionDecl (hg : g.WellFormed) {n : NameHandle} {params : List DeclHandle}
    {ret : TypeHandle} (hn : g.contains n = true) (hr : g.contains ret = true) :
    Attempt.Makes g (Build.functionDecl n params ret) :=
  (Attempt.Yields.functionDecl hg hn hr).mono fun _ _ h => h.1

end SemanticCore
