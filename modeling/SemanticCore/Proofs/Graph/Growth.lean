import Mathlib.Logic.Relation
import SemanticCore.Name
import SemanticCore.Proofs.Graph.Primitive
import SemanticCore.Proofs.Graph.WellFormed

/-!
# How a graph grows

`Graph.Addition` lists, once and for all, what can happen to a graph in one step: a node that fits
is added, a symbol is handed out, a placeholder gets a number and a node, a declaration is placed,
defined or initialized.
Whatever else is built is built out of these, so `Graph.Grows`, any number of additions, is what
every computation on a graph does, and an invariant of the additions is an invariant of
everything.

* `Graph.Addition.extends` and `Graph.Addition.wellFormed` — what each step preserves.
* `Graph.Grows.extends` and `Graph.Grows.wellFormed` — what any number of steps preserves.
* `Graph.wellFormed_initial` — an empty translation unit is well-formed.
-/

set_option autoImplicit false
namespace SemanticCore

namespace Graph

/-! ## One step -/

/-- What can happen to a graph in one step. -/
inductive Addition (g : Graph) : Graph → Prop
  | symbol (s : String) : Addition g (Build.symbol s g).2
  | placeholderName : Addition g (Build.placeholderName g).2
  | autoType : Addition g (Build.autoType g).2
  | declautoType : Addition g (Build.declautoType g).2
  | name {f : NameForm} (hf : f.Fits g) : Addition g (Build.name f g).2
  | type {f : TypeForm} (hf : f.Fits g) : Addition g (Build.type f g).2
  | constraint {f : ConsForm} (hf : f.Fits g) : Addition g (Build.constraint f g).2
  | expr {f : ExprForm} {t : TypeHandle} (hf : Expr.Fits g ⟨f, t⟩) :
      Addition g (Build.expr f t g).2
  | decl {n : NameHandle} {f : DeclForm} (hn : g.contains n = true) (hf : f.Fits g) :
      Addition g (Build.decl n f g).2
  | stmt {f : StmtForm} (hf : f.Fits g) : Addition g (Build.stmt f g).2
  | defn {f : DefForm} (hf : f.Fits g) : Addition g (Build.defn f g).2
  | init {f : InitForm} {t : TypeHandle} (hf : Init.Fits g ⟨f, t⟩) :
      Addition g (Build.init f t g).2
  | req {f : ReqForm} (hf : f.Fits g) : Addition g (Build.req f g).2
  | place (d : DeclHandle) {c : DeclHandle} (hc : g.contains c = true) :
      Addition g (Build.setContext d c g).2
  | define (d : DeclHandle) {x : DefHandle} (hx : g.contains x = true) :
      Addition g (Build.define d x g).2
  | setInit (d : DeclHandle) {i : InitHandle} (hi : g.contains i = true) :
      Addition g (Build.setInitializer d i g).2

variable {g g' g'' : Graph}

/-- A change to one declaration that completes it extends the graph. -/
theorem extends_modifyDecl (d : DeclHandle) (f : Decl → Decl)
    (hf : g.contains d = true → (g.decl d).Completes (f (g.decl d))) :
    g.Extends { g with decls := g.decls.modify d.index f } := by
  refine { Extends.refl g with decls := fun i x hx => ?_ }
  rw [Array.getElem?_modify]
  split
  · next hi =>
    subst hi
    have hc : g.contains d = true := contains_iff.2 (Array.getElem?_eq_some_iff.1 hx).1
    have hd : g.decl d = x := by rw [Graph.decl, hx]; rfl
    exact ⟨f x, by rw [hx]; rfl, hd ▸ hf hc⟩
  · exact g.decls_refl i x hx

theorem decl_modify (d : DeclHandle) (f : Decl → Decl) (x : DeclHandle) :
    Graph.decl { g with decls := g.decls.modify d.index f } x = g.decl x ∨
      x = d ∧ Graph.decl { g with decls := g.decls.modify d.index f } x = f (g.decl x) := by
  simp only [Graph.decl, Array.getElem?_modify]
  split
  · next h =>
    cases hx : g.decls[x.index]? with
    | none => exact .inl rfl
    | some y => exact .inr ⟨Handle.ext h.symm, rfl⟩
  · exact .inl rfl

/-! ### What placing, defining and initializing do -/

theorem Build.get_bind {β : Type} (f : Graph → Build β) :
    ((get : Build Graph) >>= f) g = f g g :=
  rfl

theorem Attempt.get_bind {ε β : Type} (f : Graph → Attempt ε β) :
    ((get : Attempt ε Graph) >>= f) g = f g g :=
  rfl

/-- Defining a declaration fills its empty slot, or fails and changes nothing. -/
theorem define_cases (g : Graph) (d : DeclHandle) (x : DefHandle) :
    (Build.define d x g).2 = g ∨ (g.decl d).form.definition? = some none ∧
      (Build.define d x g).2 = { g with
        decls := g.decls.modify d.index fun y => { y with form := y.form.withDefinition x } } := by
  rw [Build.define, Attempt.get_bind]
  cases hs : (g.decl d).form.definition? with
  | none => exact .inl rfl
  | some slot =>
    cases slot with
    | none => exact .inr ⟨rfl, rfl⟩
    | some y => exact .inl rfl

/-- Initializing a variable fills its empty slot, or fails and changes nothing. -/
theorem setInit_cases (g : Graph) (d : DeclHandle) (i : InitHandle) :
    (Build.setInitializer d i g).2 = g ∨ ∃ t, (g.decl d).form = .var t none ∧
      (Build.setInitializer d i g).2 = { g with
        decls := g.decls.modify d.index fun y => { y with form := .var t (some i) } } := by
  rw [Build.setInitializer, Attempt.get_bind]
  cases hf : (g.decl d).form with
  | var t init =>
    cases init with
    | none => exact .inr ⟨t, rfl, rfl⟩
    | some j => exact .inl rfl
  | _ => exact .inl rfl

/-! ### Every step extends the graph -/

theorem extends_setContext (d c : DeclHandle) (g : Graph) :
    g.Extends (Build.setContext d c g).2 :=
  extends_modifyDecl d _ fun _ => ⟨rfl, .refl _⟩

theorem extends_define (d : DeclHandle) (x : DefHandle) (g : Graph) :
    g.Extends (Build.define d x g).2 := by
  rcases g.define_cases d x with h | ⟨hs, h⟩
  · rw [h]
    exact .refl g
  · rw [h]
    exact extends_modifyDecl d _ fun _ => ⟨rfl, DeclForm.completes_withDefinition hs⟩

theorem extends_setInitializer (d : DeclHandle) (i : InitHandle) (g : Graph) :
    g.Extends (Build.setInitializer d i g).2 := by
  rcases g.setInit_cases d i with h | ⟨t, ht, h⟩
  · rw [h]
    exact .refl g
  · rw [h]
    exact extends_modifyDecl d _ fun _ => ⟨rfl, ht ▸ .var t i⟩

theorem Addition.extends (h : g.Addition g') : g.Extends g' := by
  cases h with
  | symbol s => exact frame_extends.symbol s g
  | placeholderName => exact (frame_extends.fresh g).trans (frame_extends.name _ _)
  | autoType | declautoType => exact (frame_extends.fresh g).trans (frame_extends.type _ _)
  | name hf => exact frame_extends.name _ g
  | type hf => exact frame_extends.type _ g
  | constraint hf => exact frame_extends.constraint _ g
  | expr hf => exact frame_extends.expr _ _ g
  | decl hn hf => exact frame_extends.decl _ _ g
  | stmt hf => exact frame_extends.stmt _ g
  | defn hf => exact frame_extends.defn _ g
  | init hf => exact frame_extends.init _ _ g
  | req hf => exact frame_extends.req _ g
  | place d hc => exact extends_setContext d _ g
  | define d hx => exact extends_define d _ g
  | setInit d hi => exact extends_setInitializer d _ g

/-! ### Every step keeps the graph well-formed -/

/-- The last case of `Nat.lt_succ`, for the handle of a node that was just added. -/
theorem contains_or_eq_of_size {c : Category} {x : Handle c} {n : Nat}
    (hx : x.index < n + 1) : x.index < n ∨ x = ⟨n⟩ := by
  rcases Nat.lt_succ_iff_lt_or_eq.1 hx with h | h
  · exact .inl h
  · exact .inr (Handle.ext h)

theorem name_parts_fit {f : NameForm} (hf : f.Fits g) : ∀ m ∈ f.parts, g.contains m = true := by
  intro m hm
  cases f with
  | qualified scope n => exact List.mem_singleton.1 hm ▸ hf.2
  | _ => cases hm

/-- A placeholder fits as soon as it is there. -/
theorem fits_placeholder (n : UInt32) (g : Graph) :
    (NameForm.placeholder n).Fits (Build.name (.placeholder n) g).2 :=
  ⟨_, Build.name_returned (.placeholder n) g⟩

theorem fits_auto (n : UInt32) (g : Graph) :
    (TypeForm.auto n).Fits (Build.type (.auto n) g).2 :=
  ⟨_, Build.type_returned (.auto n) g⟩

theorem fits_declauto (n : UInt32) (g : Graph) :
    (TypeForm.declauto n).Fits (Build.type (.declauto n) g).2 :=
  ⟨_, Build.type_returned (.declauto n) g⟩

theorem cons_operands_fit {f : ConsForm} (hf : f.Fits g) :
    ∀ x ∈ f.operands, g.contains x = true := by
  intro x hx
  cases f with
  | conjunction lhs rhs | disjunction lhs rhs =>
    rcases List.mem_cons.1 hx with rfl | hx
    · exact hf.1
    · exact List.mem_singleton.1 hx ▸ hf.2.1
  | _ => cases hx

theorem req_expr_fits {f : ReqForm} (hf : f.Fits g) {e : ExprHandle} (he : f.expr? = some e) :
    g.contains e = true := by
  cases f with
  | basic x => cases he; exact hf
  | type t => cases he
  | conversion x t => cases he; exact hf.1

theorem term_expr_fits {a : Term} (ha : a.Fits g) {e : ExprHandle} (he : a.expr? = some e) :
    g.contains e = true := by
  cases a with
  | expr x => cases he; exact ha
  | _ => cases he

/-- The expressions inside an expression that fits a well-formed graph are in it. -/
theorem WellFormed.operands_fit (hg : g.WellFormed) {e : Expr} (he : e.Fits g) :
    ∀ x ∈ e.form.operands g, g.contains x = true := by
  obtain ⟨form, t⟩ := e
  intro x hx
  cases form with
  | check c args =>
    obtain ⟨a, ha, hax⟩ := List.mem_filterMap.1 hx
    exact term_expr_fits (he.2.2.2 a ha) hax
  | binary op lhs rhs =>
    rcases List.mem_cons.1 hx with rfl | hx
    · exact he.2.1
    · exact List.mem_singleton.1 hx ▸ he.2.2
  | not y => exact List.mem_singleton.1 hx ▸ he.2
  | call callee args =>
    rcases List.mem_cons.1 hx with rfl | hx
    · exact he.2.1
    · exact he.2.2 x hx
  | conversion k y => exact List.mem_singleton.1 hx ▸ he.2
  | requires tparams params reqs =>
    obtain ⟨r, hr, hrx⟩ := List.mem_filterMap.1 hx
    exact req_expr_fits (hg.placed r (he.2.2.2.2 r hr)) hrx
  | _ => cases hx

/-- The declarations that a step does not touch still fit. -/
theorem WellFormed.decls_fit (hg : g.WellFormed) (h : g.Extends g')
    (hd : ∀ d : DeclHandle, g.contains d = true → g'.decl d = g.decl d) (d : DeclHandle)
    (hc : g.contains d = true) : (g'.decl d).Fits g' := by
  rw [hd d hc]
  exact Decl.Fits.extend h (hg.placed d hc)

/-- **An extension by one node is well-formed** if that node is placed. -/
theorem WellFormed.extend_one (hg : g.WellFormed) (h : g.Extends g')
    (hflags : g'.flags.size = g'.types.size)
    (hd : ∀ d : DeclHandle, g.contains d = true → g'.decl d = g.decl d) {c : Category}
    (hcount : ∀ c', c' = c ∧ g'.count c' = g.count c' + 1 ∨ g'.count c' = g.count c')
    (hnew : g'.Placed (⟨g.count c⟩ : Handle c)) : g'.WellFormed := by
  refine hg.extend h hflags (hg.decls_fit h hd) fun {c'} x hx => ?_
  rw [contains_iff] at hx
  rcases hcount c' with ⟨rfl, hc⟩ | hc
  · rw [hc] at hx
    rcases contains_or_eq_of_size hx with hx | rfl
    · exact .inl (contains_iff.2 hx)
    · exact .inr hnew
  · rw [hc] at hx
    exact .inl (contains_iff.2 hx)

/-- A name may be added if the names inside it are there and it fits once it is there itself. -/
theorem wellFormed_name (hg : g.WellFormed) {f : NameForm}
    (hparts : ∀ m ∈ f.parts, g.contains m = true) (hf : f.Fits (Build.name f g).2) :
    Graph.WellFormed (Build.name f g).2 := by
  have hext := frame_extends.name f g
  rcases g.names.intern_cases f with ⟨i, -, hi⟩ | ⟨-, -, hn⟩
  · have hsame : (Build.name f g).2 = g := by
      rw [show (Build.name f g).2 = { g with names := (g.names.intern f).2 } from rfl, hi]
    rwa [hsame]
  · have hn : (Build.name f g).2.names.nodes = g.names.nodes.push f := hn
    have hcount : ∀ c, c = .name ∧ Graph.count (Build.name f g).2 c = g.count c + 1 ∨
        Graph.count (Build.name f g).2 c = g.count c := by
      rintro ⟨⟩
      case name =>
        refine .inl ⟨rfl, ?_⟩
        rw [Graph.count, Interned.size, hn, Array.size_push]
        rfl
      all_goals exact .inr rfl
    have hget : Graph.name (Build.name f g).2 ⟨g.count .name⟩ = f := by
      rw [Graph.name, hn, getD_push]
      exact if_pos rfl
    refine hg.extend_one hext hg.flags_size (fun _ _ => rfl) hcount ?_
    rw [Placed, hget]
    exact ⟨hf, fun m hm => contains_iff.1 (hparts m hm)⟩

/-- Handing out a number changes no node. -/
theorem wellFormed_fresh (hg : g.WellFormed) : Graph.WellFormed (Build.fresh g).2 :=
  have hext := frame_extends.fresh g
  hg.extend hext hg.flags_size (hg.decls_fit hext fun _ _ => rfl) fun _ hx => .inl hx

theorem wellFormed_constraint (hg : g.WellFormed) {f : ConsForm} (hf : f.Fits g) :
    Graph.WellFormed (Build.constraint f g).2 := by
  have hext : g.Extends (Build.constraint f g).2 := (Addition.constraint hf).extends
  rcases g.constraints.intern_cases f with ⟨i, -, hi⟩ | ⟨-, -, hn⟩
  · have hsame : (Build.constraint f g).2 = g := by
      rw [show (Build.constraint f g).2 =
        { g with constraints := (g.constraints.intern f).2 } from rfl, hi]
    rwa [hsame]
  · have hn : (Build.constraint f g).2.constraints.nodes = g.constraints.nodes.push f := hn
    have hcount : ∀ c, c = .cons ∧ Graph.count (Build.constraint f g).2 c = g.count c + 1 ∨
        Graph.count (Build.constraint f g).2 c = g.count c := by
      rintro ⟨⟩
      case cons =>
        refine .inl ⟨rfl, ?_⟩
        rw [Graph.count, Interned.size, hn, Array.size_push]
        rfl
      all_goals exact .inr rfl
    have hget : Graph.cons (Build.constraint f g).2 ⟨g.count .cons⟩ = f := by
      rw [Graph.cons, hn, getD_push]
      exact if_pos rfl
    refine hg.extend_one hext hg.flags_size (fun _ _ => rfl) hcount ?_
    rw [Placed, hget]
    exact ⟨hf.extend hext, fun m hm => contains_iff.1 (cons_operands_fit hf m hm)⟩

/-- A type may be added if the types inside it are there and it fits once it is there itself. -/
theorem wellFormed_type (hg : g.WellFormed) {f : TypeForm}
    (hcomp : ∀ s ∈ f.components, g.contains s = true) (hf : f.Fits (Build.type f g).2) :
    Graph.WellFormed (Build.type f g).2 := by
  have hext := frame_extends.type f g
  rcases Build.type_cases f g with ⟨t, -, ht⟩ | ⟨-, types, hn, ht⟩
  · rwa [ht]
  · rw [ht] at hf hext ⊢
    simp only at hf hext ⊢
    have hsize : types.size = g.types.size + 1 := by
      rw [Interned.size, hn, Array.size_push]; rfl
    have hget : types.nodes[g.types.size]?.getD default = f := by
      rw [hn, getD_push]
      exact if_pos rfl
    have hget' : (g.flags.push (g.flagsOf f))[g.types.size]?.getD .none = g.flagsOf f := by
      rw [getD_push]
      exact if_pos hg.flags_size.symm
    refine hg.extend_one hext (by rw [hsize, Array.size_push, hg.flags_size]) (fun _ _ => rfl)
      (c := .type) ?_ ⟨?_, ?_, ?_⟩
    · rintro ⟨⟩
      case type => exact .inl ⟨rfl, hsize⟩
      all_goals exact .inr rfl
    · rw [Graph.type, Graph.count, hget]
      exact hf
    · rw [Graph.type, Graph.count, hget]
      exact fun s hs => contains_iff.1 (hcomp s hs)
    · rw [Graph.type, Graph.typeFlags, Graph.count, hget, hget',
        hext.flagsOf hg.flags_size hcomp]

theorem wellFormed_expr (hg : g.WellFormed) {f : ExprForm} {t : TypeHandle}
    (hf : Expr.Fits g ⟨f, t⟩) : Graph.WellFormed (Build.expr f t g).2 := by
  have hext : g.Extends (Build.expr f t g).2 := (Addition.expr hf).extends
  have hget : Graph.expr (Build.expr f t g).2 ⟨g.count .expr⟩ = ⟨f, t⟩ :=
    (getD_push g.exprs ⟨f, t⟩ default _).trans (if_pos rfl)
  refine hg.extend_one hext hg.flags_size (fun _ _ => rfl) (c := .expr) ?_ ?_
  · rintro ⟨⟩
    case expr => exact .inl ⟨rfl, Array.size_push _⟩
    all_goals exact .inr rfl
  · rw [Placed, hget, hext.operands hf]
    exact ⟨hf.extend hext, fun y hy => contains_iff.1 (hg.operands_fit hf y hy)⟩

theorem wellFormed_decl (hg : g.WellFormed) {n : NameHandle} {f : DeclForm}
    (hn : g.contains n = true) (hf : f.Fits g) : Graph.WellFormed (Build.decl n f g).2 := by
  have hext : g.Extends (Build.decl n f g).2 := (Addition.decl hn hf).extends
  have hold : ∀ d : DeclHandle, g.contains d = true →
      Graph.decl (Build.decl n f g).2 d = g.decl d := fun d hd =>
    (Kept.push g.decls ⟨n, none, f⟩).getD_eq (contains_iff.1 hd) default
  have hget : Graph.decl (Build.decl n f g).2 ⟨g.count .decl⟩ = ⟨n, none, f⟩ :=
    (getD_push g.decls ⟨n, none, f⟩ default _).trans (if_pos rfl)
  refine hg.extend_one hext hg.flags_size hold (c := .decl) ?_ ?_
  · rintro ⟨⟩
    case decl => exact .inl ⟨rfl, Array.size_push _⟩
    all_goals exact .inr rfl
  · rw [Placed, hget]
    exact ⟨hext.contains hn, by simp, hf.extend hext⟩

theorem wellFormed_stmt (hg : g.WellFormed) {f : StmtForm} (hf : f.Fits g) :
    Graph.WellFormed (Build.stmt f g).2 := by
  have hext : g.Extends (Build.stmt f g).2 := (Addition.stmt hf).extends
  have hget : Graph.stmt (Build.stmt f g).2 ⟨g.count .stmt⟩ = f :=
    (getD_push g.stmts f default _).trans (if_pos rfl)
  refine hg.extend_one hext hg.flags_size (fun _ _ => rfl) (c := .stmt) ?_ ?_
  · rintro ⟨⟩
    case stmt => exact .inl ⟨rfl, Array.size_push _⟩
    all_goals exact .inr rfl
  · rw [Placed, hget]
    exact hf.extend hext

theorem wellFormed_defn (hg : g.WellFormed) {f : DefForm} (hf : f.Fits g) :
    Graph.WellFormed (Build.defn f g).2 := by
  have hext : g.Extends (Build.defn f g).2 := (Addition.defn hf).extends
  have hget : Graph.defn (Build.defn f g).2 ⟨g.count .defn⟩ = f :=
    (getD_push g.defs f default _).trans (if_pos rfl)
  refine hg.extend_one hext hg.flags_size (fun _ _ => rfl) (c := .defn) ?_ ?_
  · rintro ⟨⟩
    case defn => exact .inl ⟨rfl, Array.size_push _⟩
    all_goals exact .inr rfl
  · rw [Placed, hget]
    exact hf.extend hext

theorem wellFormed_init (hg : g.WellFormed) {f : InitForm} {t : TypeHandle}
    (hf : Init.Fits g ⟨f, t⟩) : Graph.WellFormed (Build.init f t g).2 := by
  have hext : g.Extends (Build.init f t g).2 := (Addition.init hf).extends
  have hget : Graph.init (Build.init f t g).2 ⟨g.count .init⟩ = ⟨f, t⟩ :=
    (getD_push g.inits ⟨f, t⟩ default _).trans (if_pos rfl)
  refine hg.extend_one hext hg.flags_size (fun _ _ => rfl) (c := .init) ?_ ?_
  · rintro ⟨⟩
    case init => exact .inl ⟨rfl, Array.size_push _⟩
    all_goals exact .inr rfl
  · rw [Placed, hget]
    exact hf.extend hext

theorem wellFormed_req (hg : g.WellFormed) {f : ReqForm} (hf : f.Fits g) :
    Graph.WellFormed (Build.req f g).2 := by
  have hext : g.Extends (Build.req f g).2 := (Addition.req hf).extends
  have hget : Graph.req (Build.req f g).2 ⟨g.count .req⟩ = f :=
    (getD_push g.reqs f default _).trans (if_pos rfl)
  refine hg.extend_one hext hg.flags_size (fun _ _ => rfl) (c := .req) ?_ ?_
  · rintro ⟨⟩
    case req => exact .inl ⟨rfl, Array.size_push _⟩
    all_goals exact .inr rfl
  · rw [Placed, hget]
    exact hf.extend hext

/-- A change to one declaration that completes it keeps the graph well-formed if the declaration
fits afterwards. -/
theorem wellFormed_modifyDecl (hg : g.WellFormed) (d : DeclHandle) (f : Decl → Decl)
    (hc : g.contains d = true → (g.decl d).Completes (f (g.decl d)))
    (hf : (g.decl d).Fits g → (f (g.decl d)).Fits g) :
    WellFormed { g with decls := g.decls.modify d.index f } := by
  have hext := extends_modifyDecl d f hc
  have hcount : ∀ c, Graph.count { g with decls := g.decls.modify d.index f } c = g.count c := by
    rintro ⟨⟩
    case decl => exact Array.size_modify
    all_goals rfl
  refine hg.extend hext hg.flags_size (fun x hx => ?_) fun {c} x hx => .inl ?_
  · have hfit := hg.placed x hx
    rcases decl_modify (g := g) d f x with h | ⟨rfl, h⟩
    · rw [h]
      exact Decl.Fits.extend hext hfit
    · rw [h]
      exact (hf hfit).extend hext
  · rw [contains_iff, hcount] at hx
    exact contains_iff.2 hx

theorem fits_withDefinition {f : DeclForm} {x : DefHandle} (hs : f.definition? = some none)
    (hx : g.contains x = true) (hf : f.Fits g) : (f.withDefinition x).Fits g := by
  have hslot : ∀ y, some x = some y → g.contains y = true := by rintro y ⟨⟩; exact hx
  cases f with
  | function t params slot => exact ⟨hf.1, hslot⟩
  | ofClass slot => exact hslot
  | concept params slot => exact ⟨hf.1, hslot⟩
  | _ => cases hs

/-- **Every step keeps the graph well-formed.** -/
theorem Addition.wellFormed (h : g.Addition g') (hg : g.WellFormed) : g'.WellFormed := by
  have hext := h.extends
  cases h with
  | symbol s =>
    exact hg.extend hext hg.flags_size (hg.decls_fit hext fun _ _ => rfl) fun _ hx => .inl hx
  | placeholderName =>
    exact wellFormed_name (wellFormed_fresh hg) (by rintro _ ⟨⟩) (fits_placeholder _ _)
  | autoType => exact wellFormed_type (wellFormed_fresh hg) (by rintro _ ⟨⟩) (fits_auto _ _)
  | declautoType =>
    exact wellFormed_type (wellFormed_fresh hg) (by rintro _ ⟨⟩) (fits_declauto _ _)
  | name hf =>
    exact wellFormed_name hg (name_parts_fit hf) (hf.extend (frame_extends.name _ g))
  | type hf =>
    exact wellFormed_type hg (fits_components hf) (hf.extend (frame_extends.type _ g))
  | constraint hf => exact wellFormed_constraint hg hf
  | expr hf => exact wellFormed_expr hg hf
  | decl hn hf => exact wellFormed_decl hg hn hf
  | stmt hf => exact wellFormed_stmt hg hf
  | defn hf => exact wellFormed_defn hg hf
  | init hf => exact wellFormed_init hg hf
  | req hf => exact wellFormed_req hg hf
  | @place d c hc =>
    refine wellFormed_modifyDecl hg d _ (fun _ => ⟨rfl, .refl _⟩) fun hd => ⟨hd.1, ?_, hd.2.2⟩
    rintro _ ⟨⟩
    exact hc
  | @define d x hx =>
    rcases g.define_cases d x with h | ⟨hs, h⟩
    · rwa [h]
    · rw [h]
      exact wellFormed_modifyDecl hg d _
        (fun _ => ⟨rfl, DeclForm.completes_withDefinition hs⟩)
        fun hd => ⟨hd.1, hd.2.1, fits_withDefinition hs hx hd.2.2⟩
  | @setInit d i hi =>
    rcases g.setInit_cases d i with h | ⟨t, ht, h⟩
    · rwa [h]
    · rw [h]
      refine wellFormed_modifyDecl hg d _ (fun _ => ⟨rfl, ht ▸ .var t i⟩)
        fun hd => ⟨hd.1, hd.2.1, ?_⟩
      have hvar : DeclForm.Fits g (.var t none) := ht ▸ hd.2.2
      exact ⟨hvar.1, by rintro _ ⟨⟩; exact hi⟩

/-! ## Any number of steps -/

/-- The second graph is reached from the first by additions. -/
def Grows : Graph → Graph → Prop :=
  Relation.ReflTransGen Addition

theorem Grows.refl (g : Graph) : g.Grows g := Relation.ReflTransGen.refl

theorem Grows.trans (h : g.Grows g') (h' : g'.Grows g'') : g.Grows g'' :=
  Relation.ReflTransGen.trans h h'

theorem Grows.of_addition (h : g.Addition g') : g.Grows g' := Relation.ReflTransGen.single h

/-- **A graph that has grown extends the one it has grown out of.** -/
theorem Grows.extends (h : g.Grows g') : g.Extends g' := by
  induction h with
  | refl => exact .refl g
  | tail _ hstep ih => exact ih.trans hstep.extends

/-- **A graph that has grown out of a well-formed one is well-formed.** -/
theorem Grows.wellFormed (h : g.Grows g') (hg : g.WellFormed) : g'.WellFormed := by
  induction h with
  | refl => exact hg
  | tail _ hstep ih => exact hstep.wellFormed ih

theorem Grows.contains (h : g.Grows g') {c : Category} {x : Handle c}
    (hx : g.contains x = true) : g'.contains x = true :=
  h.extends.contains hx

/-! ## The empty translation unit -/

theorem initial_placed (symbols : SymbolTable) (intPrecision : UInt16) {c : Category}
    (x : Handle c) (hx : (Graph.initial symbols intPrecision).contains x = true) :
    (Graph.initial symbols intPrecision).Placed x := by
  obtain ⟨i⟩ := x
  rw [contains_iff] at hx
  cases c with
  | name =>
    have hi : i < 1 := hx
    obtain rfl : i = 0 := by omega
    exact ⟨trivial, by rintro _ ⟨⟩⟩
  | type =>
    have hi : i < 3 := hx
    have hcases : i = 0 ∨ i = 1 ∨ i = 2 := by omega
    rcases hcases with rfl | rfl | rfl
    · exact ⟨trivial, by rintro _ ⟨⟩, rfl⟩
    · exact ⟨trivial, by rintro _ ⟨⟩, rfl⟩
    · exact ⟨trivial, by rintro _ ⟨⟩, rfl⟩
  | decl =>
    have hi : i < 1 := hx
    obtain rfl : i = 0 := by omega
    exact ⟨rfl, by rintro _ ⟨⟩, trivial⟩
  | _ => exact absurd hx (Nat.not_lt_zero i)

/-- **An empty translation unit is well-formed.** -/
theorem wellFormed_initial (symbols : SymbolTable) (intPrecision : UInt16) :
    (Graph.initial symbols intPrecision).WellFormed where
  placed := initial_placed symbols intPrecision
  flags_size := rfl
  globalName := rfl
  globalNamespace := rfl
  void := rfl
  bool := rfl
  float := rfl

end Graph
end SemanticCore
