import SemanticCore.Proofs.Action.Reachable
import SemanticCore.Proofs.Expr.Resolution
import SemanticCore.Proofs.Type.Instantiation

/-!
# Initializers fit what they initialize

There are seven ways to ask for an initializer, and they call one another: an initializer as it was
written is a copy, a direct initialization or a list, direct initialization without an expression is
value initialization, and so on.  `InitRequest` is the way that was asked first.

Whichever rule is found in the end, it leaves an initializer of exactly the type that was asked for.
`InitRequest.Gives` says which initializers are sound: what is copied has the type of the object up
to qualifiers, what is bound is an expression of the request that names an object of a compatible
type, and nothing is done only for a reference that is initialized with zero and for an object that
is declared without an initializer.

* `InitRequest.yields_run` — every request that succeeds ends in a sound initializer.
* `initializer_sound` — **and a variable that is declared has one for as long as the graph grows.**
-/

set_option autoImplicit false
namespace SemanticCore

open SemanticCore.Graph

/-! ## Asking for an initializer -/

/-- A way to ask for the initializer of an object. -/
inductive InitRequest where
  /-- Zero, whatever that is for the type. -/
  | zero
  /-- The object is declared without an initializer. -/
  | default
  /-- The object is declared with empty parentheses. -/
  | value
  | copy (e : ExprHandle)
  | direct (es : List ExprHandle)
  /-- A reference is bound. -/
  | reference (e : ExprHandle)
  /-- The initializer is taken as it was written. -/
  | written (w : InitSyntax)

namespace InitRequest

/-- The expressions that the request names. -/
def exprs : InitRequest → List ExprHandle
  | zero | default | value => []
  | copy e | reference e => [e]
  | direct es => es
  | written w => w.exprs

/-- Initialize an object of the type as requested. -/
def run (t : TypeHandle) : InitRequest → Attempt SemanticError InitHandle
  | zero => Build.initZero t
  | default => Build.initDefault t
  | value => Build.initValue t
  | copy e => Build.initCopy t e
  | direct es => Build.initDirect t es
  | reference e => Build.initReference t e
  | written w => Build.initFrom t w

/-- What a declaration of a variable asks for. -/
def ofDeclared : Option InitSyntax → InitRequest
  | some w => written w
  | none => default

/-- The sound initializers of an object of type `t`, by what was asked for. -/
inductive Gives (g : Graph) (t : TypeHandle) : InitRequest → InitForm → Prop
  | zeroReference (ht : g.isReference t = true) : Gives g t zero .trivial
  | default (ht : g.isReference t = false) : Gives g t default .trivial
  /-- What is copied has the type of the object, up to top-level qualifiers. -/
  | copy {r : InitRequest} {e : ExprHandle} (ht : g.isReference t = false)
      (he : g.referenceRelated (g.exprType e) t = true) : Gives g t r (.copy e)
  /-- What is bound is an expression of the request, and names an object that the reference can
  refer to. -/
  | bind {r : InitRequest} {e : ExprHandle} {a b : TypeHandle} (hmem : e ∈ r.exprs)
      (ht : g.type t = .reference a) (he : g.type (g.exprType e) = .reference b)
      (hab : g.referenceCompatible a b = true) : Gives g t r (.bind e)

end InitRequest

/-- The initializer is a sound initializer of an object of exactly the type `t`. -/
structure Graph.Initializes (g : Graph) (t : TypeHandle) (r : InitRequest) (i : InitHandle) :
    Prop where
  contains : g.contains i = true
  type : (g.init i).type = t
  form : r.Gives g t (g.init i).form

/-! ## Soundness survives extensions -/

namespace Graph

variable {g g' : Graph}

theorem Extends.referenceRelated (h : g.Extends g') {a b : TypeHandle} (ha : g.contains a = true)
    (hb : g.contains b = true) : g'.referenceRelated a b = g.referenceRelated a b := by
  rw [Graph.referenceRelated, Graph.referenceRelated, h.unqualified ha, h.unqualified hb]

theorem Extends.referenceCompatible (h : g.Extends g') {a b : TypeHandle}
    (ha : g.contains a = true) (hb : g.contains b = true) :
    g'.referenceCompatible a b = g.referenceCompatible a b := by
  rw [Graph.referenceCompatible, Graph.referenceCompatible, h.referenceRelated ha hb, h.quals ha,
    h.quals hb]

/-- The type that a reference of the graph refers to is in the graph. -/
theorem WellFormed.contains_referenced (hg : g.WellFormed) {t a : TypeHandle}
    (ht : g.contains t = true) (h : g.type t = .reference a) : g.contains a = true :=
  hg.contains_component ht (by rw [h]; exact List.mem_cons_self)

end Graph

section Extend

variable {g g' : Graph} {t : TypeHandle} {r : InitRequest}

theorem InitRequest.Gives.extend (hg : g.WellFormed) (h : g.Extends g')
    (ht : g.contains t = true) {f : InitForm} (hf : f.Fits g) (hgives : r.Gives g t f) :
    r.Gives g' t f := by
  cases hgives with
  | zeroReference hr => exact .zeroReference ((h.isReference ht).trans hr)
  | default hr => exact .default ((h.isReference ht).trans hr)
  | @copy _ e hr he =>
    refine .copy ((h.isReference ht).trans hr) ?_
    rw [h.exprType hf, h.referenceRelated (hg.contains_exprType hf) ht]
    exact he
  | @bind _ e a b hmem hta he hab =>
    have hte := hg.contains_exprType hf
    refine .bind hmem ((h.type ht).trans hta) ?_ ?_ (b := b)
    · rw [h.exprType hf, h.type hte]
      exact he
    · rw [h.referenceCompatible (hg.contains_referenced ht hta) (hg.contains_referenced hte he)]
      exact hab

/-- **A sound initializer stays one.** -/
theorem Graph.Initializes.extend (hg : g.WellFormed) (h : g.Extends g') {i : InitHandle}
    (hi : g.Initializes t r i) : g'.Initializes t r i := by
  obtain ⟨ht, hf⟩ : Init.Fits g (g.init i) := hg.placed i hi.contains
  rw [hi.type] at ht
  refine ⟨h.contains hi.contains, ?_, ?_⟩
  · rw [h.init hi.contains, hi.type]
  · rw [h.init hi.contains]
    exact hi.form.extend hg h ht hf

end Extend

/-! ## Up to top-level qualifiers -/

namespace Graph

variable {g : Graph}

/-- A type and the type without its top-level qualifiers are the same up to these. -/
theorem WellFormed.referenceRelated_unqualified (hg : g.WellFormed) {t : TypeHandle}
    (ht : g.contains t = true) : g.referenceRelated (g.unqualified t) t = true := by
  rw [referenceRelated, decide_eq_true_iff, unqualified_of_plain (hg.isQualified_unqualified ht)]

theorem referenceRelated_refl (g : Graph) (t : TypeHandle) : g.referenceRelated t t = true :=
  decide_eq_true rfl

theorem isReference_of_type {t a : TypeHandle} (h : g.type t = .reference a) :
    g.isReference t = true := by
  rw [isReference, h]
  rfl

/-- A reference type is a reference to what is left without the reference. -/
theorem type_of_isReference {t : TypeHandle} (h : g.isReference t = true) :
    g.type t = .reference (g.nonReference t) := by
  rw [isReference] at h
  rw [nonReference]
  cases hf : g.type t with
  | reference a => rfl
  | _ => rw [hf] at h; cases h

/-- There is one type `bool`. -/
theorem WellFormed.eq_bool (hg : g.WellFormed) {t : TypeHandle} (ht : g.contains t = true)
    (h : (g.type t).isBool = true) : t = .bool := by
  have hbool : g.type .bool = .bool := congrArg (Option.getD · default) hg.bool
  cases hf : g.type t with
  | bool => exact type_injective ht hg.contains_bool (hf.trans hbool.symm)
  | _ => rw [hf] at h; cases h

end Graph

/-- An expression has the type that it is built with. -/
theorem Build.Yields.exprType {g : Graph} {f : ExprForm} {t : TypeHandle}
    (hf : Expr.Fits g ⟨f, t⟩) :
    Build.Yields g (Build.expr f t) fun e g' => g'.contains e = true ∧ g'.exprType e = t :=
  (Build.Yields.expr hf).mono fun _ _ h => ⟨h.1, congrArg Expr.type h.2⟩

/-- An initializer is what it was built as. -/
theorem Build.init_read (g : Graph) (f : InitForm) (t : TypeHandle) :
    (Build.init f t g).2.init (Build.init f t g).1 = ⟨f, t⟩ :=
  (getD_push g.inits ⟨f, t⟩ Inhabited.default _).trans (if_pos rfl)

/-! ## Every way of initializing is sound -/

/-- The computation only adds to the graph, and if it succeeds it returns a sound initializer. -/
abbrev Attempt.YieldsInit (g : Graph) (t : TypeHandle) (r : InitRequest)
    (x : Attempt SemanticError InitHandle) : Prop :=
  Attempt.Yields g x fun i g' => g'.Initializes t r i

namespace Attempt.YieldsInit

variable {g : Graph} {t : TypeHandle} {r : InitRequest} {e : ExprHandle}

/-- An initializer that is sound in the graph is sound once it is built. -/
theorem init (hg : g.WellFormed) {f : InitForm} (ht : g.contains t = true) (hf : f.Fits g)
    (hgives : r.Gives g t f) : YieldsInit g t r (liftM (Build.init f t)) := by
  have hbuilt : Build.Yields g (Build.init f t) fun i g' => g'.contains i = true := .init ⟨ht, hf⟩
  have hget := Build.init_read g f t
  refine .lift ⟨hbuilt.1, hbuilt.2, ?_, ?_⟩
  · rw [hget]
  · rw [hget]
    exact hgives.extend hg hbuilt.1.extends ht hf

/-- What is copied was built for the purpose, and has the type of the object up to qualifiers. -/
theorem copy (hg : g.WellFormed) (ht : g.contains t = true) (hr : g.isReference t = false)
    {x : Attempt SemanticError ExprHandle} {source : TypeHandle}
    (hx : Attempt.Yields g x fun e g' => g'.contains e = true ∧ g'.exprType e = source)
    (hs : g.contains source = true) (hrel : g.referenceRelated source t = true) :
    YieldsInit g t r (x >>= fun e => liftM (Build.init (.copy e) t)) := by
  refine .bind hg hx fun e g' hgrow hg' he => ?_
  refine init hg' (hgrow.contains ht) he.1 (.copy ((hgrow.extends.isReference ht).trans hr) ?_)
  rw [he.2, hgrow.extends.referenceRelated hs ht]
  exact hrel

/-- Nothing is done for a reference, and only if zero is what was asked for. -/
theorem initZero (hg : g.WellFormed) (ht : g.contains t = true)
    (hzero : g.isReference t = true → r = .zero) : YieldsInit g t r (Build.initZero t) := by
  refine .get_bind ?_
  split
  · exact .throw_bind _
  · refine .get_bind ?_
    split
    · next hr =>
      rw [hzero hr]
      exact init hg ht trivial (.zeroReference hr)
    · next hr =>
      rw [Bool.not_eq_true] at hr
      refine .get_bind ?_
      split
      · exact .throw_bind _
      · refine .get_bind (.get_bind ?_)
        dsimp only
        split
        · have hbase := hg.contains_unqualified ht
          have hrel := hg.referenceRelated_unqualified ht
          refine .get_bind ?_
          split
          · next hbool =>
            refine copy hg ht hr (.lift ?_) hbase hrel
            rw [hg.eq_bool hbase hbool]
            exact .exprType ⟨hg.contains_bool, rfl⟩
          · exact copy hg ht hr (.lift (.exprType ⟨hbase, trivial⟩)) hbase hrel
        · exact .throw _

theorem initDefault (hg : g.WellFormed) (ht : g.contains t = true) :
    YieldsInit g t .default (Build.initDefault t) := by
  refine .get_bind ?_
  split
  · exact .throw_bind _
  · next hr => exact init hg ht trivial (.default (Bool.not_eq_true _ ▸ hr))

theorem initValue (hg : g.WellFormed) (ht : g.contains t = true) :
    YieldsInit g t r (Build.initValue t) := by
  refine .get_bind ?_
  split
  · exact .throw_bind _
  · next hr =>
    refine .get_bind ?_
    split
    · exact .throw_bind _
    · exact initZero hg ht fun hr' => absurd hr' hr

/-- A reference is bound to an object of a compatible type. -/
theorem initReference (hg : g.WellFormed) (ht : g.contains t = true) (he : g.contains e = true)
    (hmem : e ∈ r.exprs) : YieldsInit g t r (Build.initReference t e) := by
  refine .get_bind ?_
  split
  · exact .throw_bind _
  · next hr =>
    rw [Bool.not_eq_true', Bool.not_eq_false] at hr
    refine .get_bind (.get_bind (.get_bind (.get_bind (.get_bind ?_))))
    split
    · next hbind =>
      rw [Bool.and_eq_true] at hbind
      exact init hg ht he
        (.bind hmem (type_of_isReference hr) (type_of_isReference hbind.1) hbind.2)
    · exact .throw _

/-- A deferred conversion is to the very type of the object. -/
theorem copyDeferred (hg : g.WellFormed) (ht : g.contains t = true) (he : g.contains e = true)
    (hr : g.isReference t = false) :
    YieldsInit g t r (liftM (Build.copyDeferred t e) : Attempt SemanticError InitHandle) :=
  copy hg ht hr (.lift (.exprType (f := .conversion .dependent e) ⟨ht, he⟩)) ht
    (g.referenceRelated_refl t)

theorem convertAndCopy (hg : g.WellFormed) (ht : g.contains t = true) (he : g.contains e = true)
    (hr : g.isReference t = false) : YieldsInit g t r (Build.convertAndCopy t e) := by
  refine .get_bind (.get_bind (.get_bind ?_))
  split
  · exact copyDeferred hg ht he hr
  · refine .get_bind ?_
    split
    · exact .throw _
    · have hconvert : Attempt.Types True g (Build.convert e t) fun x g' =>
          g'.contains x = true ∧ g'.exprType x = g.unqualified t :=
        .convert hg he ht
      exact copy hg ht hr ⟨hconvert.1.grows, hconvert.2⟩ (hg.contains_unqualified ht)
        (hg.referenceRelated_unqualified ht)

theorem initCopy (hg : g.WellFormed) (ht : g.contains t = true) (he : g.contains e = true)
    (hmem : e ∈ r.exprs) : YieldsInit g t r (Build.initCopy t e) := by
  refine .get_bind ?_
  split
  · exact initReference hg ht he hmem
  · next hr =>
    rw [Bool.not_eq_true] at hr
    refine .get_bind ?_
    split
    · exact copyDeferred hg ht he hr
    · refine .get_bind ?_
      split
      · exact .throw _
      · refine .get_bind ?_
        split
        · exact .throw _
        · exact convertAndCopy hg ht he hr

theorem initDirect (hg : g.WellFormed) (ht : g.contains t = true) {es : List ExprHandle}
    (hes : ∀ e ∈ es, g.contains e = true) (hmem : ∀ e ∈ es, e ∈ r.exprs) :
    YieldsInit g t r (Build.initDirect t es) := by
  cases es with
  | nil =>
    refine .get_bind ?_
    dsimp only
    split
    · exact .throw_bind _
    · exact initValue hg ht
  | cons e rest =>
    have he := hes e List.mem_cons_self
    refine .get_bind ?_
    dsimp only
    split
    · exact .throw_bind _
    · refine .get_bind ?_
      split
      · exact .throw _
      · refine .get_bind ?_
        split
        · exact initReference hg ht he (hmem e List.mem_cons_self)
        · next hr =>
          rw [Bool.not_eq_true] at hr
          refine .get_bind ?_
          split
          · exact copyDeferred hg ht he hr
          · refine .get_bind ?_
            split
            · exact .throw _
            · exact convertAndCopy hg ht he hr

theorem initFrom (hg : g.WellFormed) (ht : g.contains t = true) {w : InitSyntax}
    (hw : ∀ e ∈ w.exprs, g.contains e = true) (hmem : ∀ e ∈ w.exprs, e ∈ r.exprs) :
    YieldsInit g t r (Build.initFrom t w) := by
  cases w with
  | equal e => exact initCopy hg ht (hw e List.mem_cons_self) (hmem e List.mem_cons_self)
  | paren es => exact initDirect hg ht hw hmem
  | brace es => exact .throw _

end Attempt.YieldsInit

/-- **A request that succeeds ends in a sound initializer.** -/
theorem InitRequest.yields_run {g : Graph} (hg : g.WellFormed) {t : TypeHandle}
    (ht : g.contains t = true) (r : InitRequest) (hr : ∀ e ∈ r.exprs, g.contains e = true) :
    Attempt.YieldsInit g t r (r.run t) := by
  cases r with
  | zero => exact .initZero hg ht fun _ => rfl
  | default => exact .initDefault hg ht
  | value => exact .initValue hg ht
  | copy e => exact .initCopy hg ht (hr e List.mem_cons_self) List.mem_cons_self
  | direct es => exact .initDirect hg ht hr fun _ h => h
  | reference e => exact .initReference hg ht (hr e List.mem_cons_self) List.mem_cons_self
  | written w => exact .initFrom hg ht hr fun _ h => h

/-! ## Variables -/

/-- A declaration that is updated is updated. -/
theorem Graph.decl_modify_self {g : Graph} {d : DeclHandle} (hd : g.contains d = true)
    (f : Decl → Decl) :
    Graph.decl { g with decls := g.decls.modify d.index f } d = f (g.decl d) := by
  have hget : g.decls[d.index]? = some (g.decl d) :=
    getElem?_eq_some_getD (contains_iff.1 hd) default
  change ((g.decls.modify d.index f)[d.index]?).getD default = _
  rw [Array.getElem?_modify, if_pos rfl, hget]
  rfl

/-- An initialized variable has the slot of its initializer filled. -/
theorem Attempt.Yields.setInitializer_form {g : Graph} {d : DeclHandle} {i : InitHandle}
    {t : TypeHandle} (hi : g.contains i = true) (hd : g.declaredType? d = some t) :
    Attempt.Yields g (Build.setInitializer d i) fun _ g' =>
      (g'.decl d).form = .var t (some i) := by
  refine ⟨(Attempt.Yields.setInitializer d hi).1, fun u hu => ?_⟩
  have hc := contains_of_declaredType? hd
  rw [declaredType?] at hd
  rw [Build.setInitializer, Attempt.get_bind] at hu ⊢
  cases hf : (g.decl d).form with
  | var s slot =>
    rw [hf] at hd hu
    cases hd
    cases slot with
    | none => exact congrArg Decl.form (decl_modify_self hc _)
    | some j => cases hu
  | _ =>
    rw [hf] at hu
    cases hu

theorem Attempt.Yields.initVariable {g : Graph} (hg : g.WellFormed) {d : DeclHandle}
    {t : TypeHandle} (hd : g.declaredType? d = some t) (ht : g.contains t = true)
    {written : Option InitSyntax}
    (hw : ∀ e ∈ (InitRequest.ofDeclared written).exprs, g.contains e = true) :
    Attempt.Yields g (Build.initVariable d t written) fun _ g' =>
      ∃ i, (g'.decl d).form = .var t (some i) ∧ g'.Initializes t (.ofDeclared written) i := by
  have hinit := (InitRequest.ofDeclared written).yields_run hg ht hw
  have hset : ∀ i g', g.Grows g' → g'.WellFormed → g'.Initializes t (.ofDeclared written) i →
      Attempt.Yields g' ((Build.setInitializer d i).adapt SemanticError.ofBuild) fun _ g'' =>
        ∃ i, (g''.decl d).form = .var t (some i) ∧ g''.Initializes t (.ofDeclared written) i := by
    intro i g' hgrow hg' hi
    have hd' := (hgrow.extends.declaredType? (contains_of_declaredType? hd)).trans hd
    have hfill :=
      (Attempt.Yields.setInitializer_form hi.contains hd').adapt (k := SemanticError.ofBuild)
    exact ⟨hfill.1, fun u hu => ⟨i, hfill.2 u hu, hi.extend hg' hfill.1.extends⟩⟩
  cases written with
  | none => exact .bind hg hinit hset
  | some w => exact .bind hg hinit hset

/-- A variable keeps its initializer. -/
theorem Graph.Extends.initialized {g g' : Graph} (h : g.Extends g') {d : DeclHandle}
    {t : TypeHandle} {i : InitHandle} (hd : (g.decl d).form = .var t (some i)) :
    (g'.decl d).form = .var t (some i) := by
  have hc : g.contains d = true := contains_of_form_ne (by rw [hd]; rintro ⟨⟩)
  have hform := (h.decl hc).form
  rw [hd] at hform
  generalize (g'.decl d).form = f at hform ⊢
  cases hform
  rfl

namespace Action

variable {ρ : Type} {s : Session ρ} {n : NameHandle} {t : TypeHandle} {written : Option InitSyntax}

/-- A variable that is declared has a sound initializer. -/
theorem variableDecl_follows (hs : s.Fits) (hn : s.graph.contains n = true)
    (ht : s.graph.contains t = true)
    (hw : ∀ e ∈ (InitRequest.ofDeclared written).exprs, s.graph.contains e = true) :
    Course.growing.Follows s (variableDecl n t written) fun d g =>
      ∃ i, (g.decl d).form = .var t (some i) ∧ g.Initializes t (.ofDeclared written) i := by
  have hvar : DeclForm.Fits s.graph (.var t none) := ⟨ht, by rintro _ ⟨⟩⟩
  refine .bind hs (Course.growing.build (Build.Yields.decl hn hvar))
    fun d s₁ hs₁ hleads₁ hd _ => .context_bind ?_
  refine .bind hs₁ (.declare Course.growing.declares hs₁ trivial) fun _ s₂ hs₂ hleads₂ _ _ => ?_
  have hgrow := hleads₁.grows.trans hleads₂.grows
  have hdeclared : s₂.graph.declaredType? d = some t := by
    rw [hleads₂.grows.extends.declaredType? hd.1, declaredType?, hd.2]
  have hinit := Attempt.Yields.initVariable hs₂.graph hdeclared (hgrow.contains ht)
    fun e he => hgrow.contains (hw e he)
  refine .bind hs₂ (Course.growing.build hinit.run) fun r s₃ hs₃ _ hr _ => ?_
  split
  · exact .pure hs₃ (hr () rfl)
  · exact .bind hs₃ (Course.growing.restore hs₃ _) fun _ _ hs₄ _ _ _ => .throw hs₄ trivial

end Action

/-- **What initializes an object fits it.**  A request that succeeds ends in a sound initializer of
exactly the type that was asked for; and a variable whose declaration succeeds holds one of its own
type, whatever becomes of the graph. -/
theorem initializer_sound :
    (∀ (g : Graph) (t : TypeHandle) (r : InitRequest), g.WellFormed → g.contains t = true →
      (∀ e ∈ r.exprs, g.contains e = true) →
        ∀ i g', r.run t g = (.ok i, g') → g'.Initializes t r i) ∧
    ∀ (ρ : Type) (s : Session ρ) (n : NameHandle) (t : TypeHandle) (written : Option InitSyntax),
      s.Fits → s.graph.contains n = true → s.graph.contains t = true →
      (∀ e ∈ (InitRequest.ofDeclared written).exprs, s.graph.contains e = true) →
        ∀ d s', Action.variableDecl n t written s = (.ok d, s') →
          ∃ i, ∀ g, s'.graph.Evolves g →
            (g.decl d).form = .var t (some i) ∧ g.Initializes t (.ofDeclared written) i := by
  refine ⟨fun g t r hg ht hr i g' h => ?_, fun ρ s n t written hs hn ht hw d s' h => ?_⟩
  · have hres := (r.yields_run hg ht hr).2
    rw [h] at hres
    exact hres i rfl
  · obtain ⟨hleads, hres, -⟩ := Action.variableDecl_follows hs hn ht hw
    rw [h] at hleads hres
    obtain ⟨i, hform, hi⟩ := hres d rfl
    have hs' := (hleads.fits hs).graph
    refine ⟨i, fun g hg => ?_⟩
    have hext := (hg.grows hs').extends
    exact ⟨hext.initialized hform, hi.extend hs' hext⟩

/-- The graph of `int x;`, with the expression 0 that names `x`, and the type 6, `const int&`. -/
def objectAndReference : Graph :=
  let g := Graph.initial .empty 32
  let g := (Build.intType g).2
  let g := (Build.variableDecl .globalName ⟨3⟩ none g).2
  let g := ((Build.referenceTo ⟨1⟩).run g).2
  let g := (Build.qualifiedType ⟨3⟩ .const g).2
  (Build.referenceType ⟨5⟩ g).2

theorem objectAndReference_wellFormed : objectAndReference.WellFormed := by
  have hint := (Reachable.initial .empty 32).operation (x := Build.intType) .intType
  have hvar := hint.operation (x := Build.variableDecl .globalName ⟨3⟩ none)
    (.variableDecl rfl rfl (by rintro _ ⟨⟩))
  have hname := hvar.operation (x := (Build.referenceTo ⟨1⟩).run) (.referenceTo rfl)
  have hconst := hname.operation (x := Build.qualifiedType ⟨3⟩ .const) (.qualifiedType .const rfl)
  exact (hconst.operation (x := Build.referenceType ⟨5⟩) (.referenceType rfl)).wellFormed

/-- Before a second variable is declared. -/
def besideObject : Session Unit := ⟨objectAndReference, .initial default .structural, ()⟩

/-- The variable of `const int& r(x);` is bound to `x`. -/
theorem initializer_sound_constReference :
    let request := InitRequest.direct [⟨0⟩]
    let declared := Action.variableDecl .globalName ⟨6⟩ (some (.paren [⟨0⟩])) besideObject
    (objectAndReference.WellFormed ∧ objectAndReference.contains (⟨6⟩ : TypeHandle) = true ∧
      (∀ e ∈ request.exprs, objectAndReference.contains e = true) ∧
      (request.run ⟨6⟩ objectAndReference).1 = .ok ⟨0⟩ ∧
      (request.run ⟨6⟩ objectAndReference).2.Initializes ⟨6⟩ request ⟨0⟩) ∧
    besideObject.Fits ∧ besideObject.graph.contains Handle.globalName = true ∧
    declared.1 = .ok ⟨2⟩ ∧ ∃ i, ∀ g, declared.2.graph.Evolves g →
      (g.decl ⟨2⟩).form = .var ⟨6⟩ (some i) ∧
        g.Initializes ⟨6⟩ (.written (.paren [⟨0⟩])) i := by
  have hg := objectAndReference_wellFormed
  have ht : objectAndReference.contains (⟨6⟩ : TypeHandle) = true := by decide +kernel
  have he : ∀ e ∈ [(⟨0⟩ : ExprHandle)], objectAndReference.contains e = true := by decide +kernel
  have hs : besideObject.Fits := ⟨hg, .initial default (Oracle.fits_structural hg)⟩
  have hrun : ((InitRequest.direct [⟨0⟩]).run ⟨6⟩ objectAndReference).1 = .ok ⟨0⟩ := by
    decide +kernel
  have hdecl : (Action.variableDecl .globalName ⟨6⟩ (some (.paren [⟨0⟩])) besideObject).1 =
      .ok ⟨2⟩ := by decide +kernel
  have hinit := initializer_sound.1 _ _ (.direct [⟨0⟩]) hg ht he _ _ (Prod.ext hrun rfl)
  exact ⟨⟨hg, ht, he, hrun, hinit⟩, hs, hg.globalName, hdecl,
    initializer_sound.2 Unit _ _ _ (some (.paren [⟨0⟩])) hs hg.globalName ht he _ _
      (Prod.ext hdecl rfl)⟩

end SemanticCore
