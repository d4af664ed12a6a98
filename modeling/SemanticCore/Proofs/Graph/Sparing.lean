import SemanticCore.Proofs.Graph.Frame
import SemanticCore.Proofs.Graph.Operation

/-!
# Leaving a declaration alone

A declaration is the one kind of node that changes once it is there: it is placed, defined or
initialized.  `Graph.Spares d` says of a graph that grew that this did not happen to the declaration
`d`.  Primitive additions spare every declaration, so all constructions do, but for the three that
complete one (`Build.Completes`), which spare the declarations other than that one.

Specializing a template completes declarations too, but only those that it has built itself.  That
is why `Build.Spares d x Q` also says something of the result: run on a graph that has `d`, what `x`
builds is something else.

* `Operation.spares` — an operation spares every declaration that it does not complete.
-/

set_option autoImplicit false
namespace SemanticCore

open SemanticCore.Graph

/-- The second graph has grown out of the first, and the declaration, if it was there, is what it
was. -/
structure Graph.Spares (d : DeclHandle) (g g' : Graph) : Prop where
  grown : g.Extends g'
  decl : g.contains d = true → g'.decl d = g.decl d

/-- The computation places, defines or initializes the declaration. -/
inductive Build.Completes (d : DeclHandle) : {α : Type} → Build α → Prop
  | setContext (context : DeclHandle) : Completes d (Build.setContext d context)
  | define (definition : DefHandle) : Completes d (Build.define d definition).run
  | setInitializer (init : InitHandle) : Completes d (Build.setInitializer d init).run

variable {α β ε ε' : Type} {d : DeclHandle}

namespace Graph.Spares

variable {g g' : Graph}

theorem contains (h : g.Spares d g') (hd : g.contains d = true) : g'.contains d = true :=
  h.grown.contains hd

/-- A graph with the same declarations spares each of them. -/
theorem of_decls_eq (h : g.Extends g') (hdecls : g'.decls = g.decls) : g.Spares d g' :=
  ⟨h, fun _ => by rw [Graph.decl, Graph.decl, hdecls]⟩

end Graph.Spares

/-- **Every primitive addition spares every declaration.** -/
theorem Graph.frame_spares (d : DeclHandle) : ExprFrame (Graph.Spares d) where
  refl g := ⟨.refl g, fun _ => rfl⟩
  trans h h' := ⟨h.grown.trans h'.grown, fun hd => (h'.decl (h.contains hd)).trans (h.decl hd)⟩
  fresh g := .of_decls_eq (frame_extends.fresh g) rfl
  symbol s g := .of_decls_eq (frame_extends.symbol s g) rfl
  name f g := .of_decls_eq (frame_extends.name f g) rfl
  type f g := by
    refine .of_decls_eq (frame_extends.type f g) ?_
    rcases Build.type_cases f g with ⟨t, -, ht⟩ | ⟨-, types, -, ht⟩
    · rw [ht]
    · rw [ht]
  constraint f g := .of_decls_eq (frame_extends.constraint f g) rfl
  expr f t g := .of_decls_eq (frame_extends.expr f t g) rfl
  decl n f g := by
    refine ⟨frame_extends.decl n f g, fun hd => ?_⟩
    have hne : d.index ≠ g.decls.size := Nat.ne_of_lt (contains_iff.1 hd)
    exact (getD_push _ _ _ _).trans (if_neg hne)
  stmt f g := .of_decls_eq (frame_extends.stmt f g) rfl
  defn f g := .of_decls_eq (frame_extends.defn f g) rfl
  init f t g := .of_decls_eq (frame_extends.init f t g) rfl
  req f g := .of_decls_eq (frame_extends.req f g) rfl

/-! ## Completing another declaration -/

section Other

variable {g : Graph} {x : DeclHandle}

/-- A change to one declaration that completes it spares the others. -/
theorem Graph.spares_modifyDecl (hx : x ≠ d) (f : Decl → Decl)
    (hf : g.contains x = true → (g.decl x).Completes (f (g.decl x))) :
    g.Spares d { g with decls := g.decls.modify x.index f } := by
  refine ⟨extends_modifyDecl x f hf, fun _ => ?_⟩
  rcases g.decl_modify x f d with h | ⟨h, -⟩
  · exact h
  · exact absurd h.symm hx

theorem Graph.spares_setContext (hx : x ≠ d) (context : DeclHandle) :
    g.Spares d (Build.setContext x context g).2 :=
  spares_modifyDecl hx _ fun _ => ⟨rfl, .refl _⟩

theorem Graph.spares_define (hx : x ≠ d) (definition : DefHandle) :
    g.Spares d (Build.define x definition g).2 := by
  rcases g.define_cases x definition with h | ⟨hs, h⟩
  · rw [h]
    exact (frame_spares d).refl g
  · rw [h]
    exact spares_modifyDecl hx _ fun _ => ⟨rfl, DeclForm.completes_withDefinition hs⟩

theorem Graph.spares_setInitializer (hx : x ≠ d) (init : InitHandle) :
    g.Spares d (Build.setInitializer x init g).2 := by
  rcases g.setInit_cases x init with h | ⟨t, ht, h⟩
  · rw [h]
    exact (frame_spares d).refl g
  · rw [h]
    exact spares_modifyDecl hx _ fun _ => ⟨rfl, ht ▸ .var t init⟩

end Other

/-! ## Computations that spare a declaration -/

/-- Run on a graph that has the declaration, the computation spares it, and its result satisfies
`Q`. -/
def Build.Spares (d : DeclHandle) (x : Build α) (Q : α → Prop) : Prop :=
  ∀ g, g.contains d = true → g.Spares d (x g).2 ∧ Q (x g).1

/-- The same of a computation that may fail, with `Q` for its result if it succeeds. -/
def Attempt.Spares (d : DeclHandle) (x : Attempt ε α) (Q : α → Prop) : Prop :=
  ∀ g, g.contains d = true → g.Spares d (x g).2 ∧ ∀ a, (x g).1 = .ok a → Q a

namespace Build.Spares

variable {x : Build α} {f : α → Build β} {P : α → Prop} {Q : β → Prop}

theorem of_within (hx : Build.Within (Graph.Spares d) x) : Spares d x fun _ => True :=
  fun g _ => ⟨hx g, trivial⟩

theorem pure {b : β} (hb : Q b) : Spares d (Pure.pure b) Q :=
  fun g _ => ⟨(frame_spares d).refl g, hb⟩

theorem bind (hx : Spares d x P) (hf : ∀ a, P a → Spares d (f a) Q) : Spares d (x >>= f) Q := by
  intro g hd
  obtain ⟨h, hP⟩ := hx g hd
  obtain ⟨h', hQ⟩ := hf (x g).1 hP (x g).2 (h.contains hd)
  exact ⟨(frame_spares d).trans h h', hQ⟩

theorem get_bind {f : Graph → Build β} (hf : ∀ g, Spares d (f g) Q) :
    Spares d ((get : Build Graph) >>= f) Q :=
  fun g hd => hf g g hd

/-- What is declared is a new declaration. -/
theorem decl (n : NameHandle) (form : DeclForm) : Spares d (Build.decl n form) (· ≠ d) := by
  refine fun g hd => ⟨(frame_spares d).decl n form g, ?_⟩
  rintro rfl
  exact Nat.lt_irrefl _ (contains_iff.1 hd)

theorem templateDecl (params : List DeclHandle) (pattern : DeclHandle)
    (constraint : Option ExprHandle) :
    Spares d (Build.templateDecl params pattern constraint) (· ≠ d) :=
  .get_bind fun _ => .decl _ _

theorem conceptOfExpr (n : NameHandle) (params : List DeclHandle) (e : ExprHandle) :
    Spares d (Build.conceptOfExpr n params e) (· ≠ d) :=
  .bind (.of_within fun g => (frame_spares d).defn _ g) fun _ _ => .decl _ _

theorem setContext {x : DeclHandle} (hx : x ≠ d) (context : DeclHandle) :
    Spares d (Build.setContext x context) fun _ => True :=
  fun _ _ => ⟨Graph.spares_setContext hx context, trivial⟩

theorem setContexts {ds : List DeclHandle} (hds : ∀ x ∈ ds, x ≠ d) (context : DeclHandle) :
    Spares d (Build.setContexts ds context) fun _ => True := by
  induction ds with
  | nil => exact .pure trivial
  | cons x ds ih =>
    obtain ⟨hx, hds⟩ := List.forall_mem_cons.1 hds
    exact .bind (.setContext hx context) fun _ _ => ih hds

end Build.Spares

namespace Attempt.Spares

variable {x : Attempt ε α} {f : α → Attempt ε β} {P : α → Prop} {Q : β → Prop}

theorem of_within (hx : Attempt.Within (Graph.Spares d) x) : Spares d x fun _ => True :=
  fun g _ => ⟨hx g, fun _ _ => trivial⟩

theorem pure {b : β} (hb : Q b) : Spares d (Pure.pure b : Attempt ε β) Q :=
  fun g _ => ⟨(frame_spares d).refl g, by rintro _ ⟨⟩; exact hb⟩

theorem throw (e : ε) : Spares d (MonadExcept.throw e : Attempt ε β) Q :=
  fun g _ => ⟨(frame_spares d).refl g, by rintro _ ⟨⟩⟩

theorem bind (hx : Spares d x P) (hf : ∀ a, P a → Spares d (f a) Q) : Spares d (x >>= f) Q := by
  intro g hd
  obtain ⟨h, hres⟩ := hx g hd
  rcases hxg : x g with ⟨e | a, g'⟩
  · rw [hxg] at h
    rw [bind_of_error hxg]
    exact ⟨h, by rintro _ ⟨⟩⟩
  · rw [hxg] at h hres
    obtain ⟨h', hQ⟩ := hf a (hres a rfl) g' (h.contains hd)
    rw [bind_of_ok hxg]
    exact ⟨(frame_spares d).trans h h', hQ⟩

theorem pure_bind {a : α} (hf : Spares d (f a) Q) :
    Spares d ((Pure.pure a : Attempt ε α) >>= f) Q :=
  hf

theorem get_bind {f : Graph → Attempt ε β} (hf : ∀ g, Spares d (f g) Q) :
    Spares d ((get : Attempt ε Graph) >>= f) Q :=
  fun g hd => hf g g hd

theorem lift {y : Build α} (hy : Build.Spares d y P) : Spares d (liftM y : Attempt ε α) P := by
  intro g hd
  obtain ⟨h, hP⟩ := hy g hd
  exact ⟨h, by rintro _ ⟨⟩; exact hP⟩

theorem adapt {k : ε → ε'} (hx : Spares d x P) : Spares d (x.adapt k : Attempt ε' α) P := by
  intro g hd
  obtain ⟨h, hres⟩ := hx g hd
  have hrun : (x.adapt k : Attempt ε' α) g = ((x g).1.mapError k, (x g).2) := rfl
  rw [hrun]
  refine ⟨h, fun a ha => hres a ?_⟩
  cases hr : (x g).1 with
  | error e =>
    rw [hr] at ha
    cases ha
  | ok b =>
    rw [hr] at ha
    cases ha
    rfl

theorem mapM {f : α → Attempt ε β} (hf : ∀ a, Spares d (f a) Q) (as : List α) :
    Spares d (as.mapM f) fun bs => ∀ b ∈ bs, Q b := by
  induction as with
  | nil => exact .pure fun _ hb => by cases hb
  | cons a as ih =>
    rw [List.mapM_cons]
    exact .bind (hf a) fun b hb => .bind ih fun bs hbs =>
      .pure (List.forall_mem_cons.2 ⟨hb, hbs⟩)

theorem functionDecl (n : NameHandle) (params : List DeclHandle) (ret : TypeHandle) :
    Spares d (Build.functionDecl n params ret) (· ≠ d) :=
  .bind (.of_within (.functionType (frame_spares d).toFrame params ret)) fun _ _ =>
    .lift (.decl _ _)

theorem specializeParam (s : Substitution) (p : DeclHandle) :
    Spares d (Build.specializeParam s p) (· ≠ d) := by
  refine .get_bind fun g => ?_
  split
  · exact .throw _
  · exact .get_bind fun _ =>
      .bind (.lift (.of_within (.substitute (frame_spares d).toFrame s _))) fun _ _ =>
        .lift (.decl _ _)

/-- The declarations that are placed are the specialization and its parameters. -/
theorem specialize (template : DeclHandle) (s : Substitution) :
    Spares d (Build.specialize template s) fun _ => True := by
  have hname : ∀ args, Spares d (Build.templateName template args) fun _ => True :=
    fun args => .of_within (.templateName (frame_spares d).toFrame template args)
  have hret : ∀ ret, Build.Spares d (Build.substitute s ret) fun _ => True :=
    fun ret => .of_within (.substitute (frame_spares d).toFrame s ret)
  refine .get_bind fun g => ?_
  split
  · split
    · refine .pure_bind (.bind (.adapt (hname _)) fun n _ => ?_)
      refine .bind (.mapM (specializeParam s) _) fun params hparams =>
        .bind (.lift (hret _)) fun ret _ => ?_
      refine .bind (.adapt (functionDecl n params ret)) fun spec hspec => ?_
      refine .bind (.lift (.setContexts hparams spec)) fun _ _ => .get_bind fun g' => ?_
      split
      · exact .bind (.lift (.setContext hspec _)) fun _ _ => .pure trivial
      · exact .pure trivial
    · exact .throw _
  · exact .throw _

end Attempt.Spares

/-! ## Operations -/

/-- A relation that holds for primitive additions, for specializing and for completing declarations
holds for every operation. -/
theorem Operation.within {R : Graph → Graph → Prop} {g : Graph} {x : Build α} (hR : ExprFrame R)
    (hspecialize : ∀ template s, R g (Build.specialize template s g).2) (hx : Operation g x)
    (hcompletes : ∀ d, x.Completes d → R g (x g).2) : R g (x g).2 := by
  have hF := hR.toFrame
  cases hx with
  | symbol s => exact hR.symbol s g
  | identifier s => exact Build.Within.identifier hF s g
  | placeholderName => exact Build.Within.placeholderName hF g
  | templateName _ _ => exact Attempt.Within.templateName hF _ _ g
  | conceptName _ _ => exact Attempt.Within.conceptName hF _ _ g
  | qualifiedName _ _ => exact hR.name _ g
  | intTypeOf signed precision => exact hR.type _ g
  | intType => exact Build.Within.intType hF g
  | uintType => exact Build.Within.uintType hF g
  | autoType => exact Build.Within.autoType hF g
  | declautoType => exact Build.Within.declautoType hF g
  | functionTypeOf _ _ => exact hR.type _ g
  | functionType _ _ => exact Attempt.Within.functionType hF _ _ g
  | qualifiedType quals _ => exact Build.Within.qualifiedType hF _ quals g
  | pointerType _ => exact hR.type _ g
  | referenceType _ => exact hR.type _ g
  | sequenceType _ => exact hR.type _ g
  | classType _ => exact Attempt.Within.classType hF _ g
  | typenameType _ => exact Attempt.Within.typenameType hF _ g
  | archetypeType _ => exact hR.type _ g
  | boolLiteral value => exact hR.expr _ _ g
  | integerLiteral value _ => exact hR.expr _ _ g
  | intLiteral value => exact Build.Within.intLiteral hR value g
  | uintLiteral value => exact Build.Within.uintLiteral hR value g
  | referenceTo _ => exact Attempt.Within.referenceTo hR _ g
  | templateReference _ => exact Attempt.Within.templateReference hR _ g
  | conceptCheck _ _ => exact Attempt.Within.conceptCheck hR _ _ g
  | synthesizedValue _ => exact Attempt.Within.synthesizedValue hR _ g
  | binary op _ _ _ => exact hR.expr _ _ g
  | negation _ _ => exact hR.expr _ _ g
  | call _ _ _ => exact hR.expr _ _ g
  | callTo _ _ _ => exact Attempt.Within.callTo hR _ _ _ g
  | conversion kind _ _ => exact hR.expr _ _ g
  | requiresExpr _ _ _ => exact hR.expr _ _ g
  | namespaceDecl _ => exact hR.decl _ _ g
  | variableDecl _ _ _ => exact hR.decl _ _ g
  | functionDecl _ _ _ => exact Attempt.Within.functionDecl hF _ _ _ g
  | classDecl _ => exact hR.decl _ _ g
  | templateDecl _ _ _ => exact Build.Within.templateDecl hF _ _ _ g
  | conceptDecl _ _ _ => exact hR.decl _ _ g
  | conceptOfExpr _ _ _ => exact Build.Within.conceptOfExpr hF _ _ _ g
  | objectParam _ _ => exact hR.decl _ _ g
  | valueParam _ _ => exact hR.decl _ _ g
  | typeParam _ _ => exact hR.decl _ _ g
  | setContext _ _ => exact hcompletes _ (.setContext _)
  | define _ _ => exact hcompletes _ (.define _)
  | setInitializer _ _ => exact hcompletes _ (.setInitializer _)
  | stmt _ => exact hR.stmt _ g
  | defn _ => exact hR.defn _ g
  | init _ _ => exact hR.init _ _ g
  | req _ => exact hR.req _ g
  | conceptConstraint _ _ => exact Attempt.Within.conceptConstraint hF _ _ g
  | predicate _ => exact hR.constraint _ g
  | conjunction _ _ => exact Build.Within.conjunction hF _ _ g
  | disjunction _ _ => exact Build.Within.disjunction hF _ _ g
  | normalize _ => exact Build.Within.normalize hF _ g
  | subsumes _ _ => exact Build.Within.subsumes hF _ _ g
  | admission _ _ => exact Build.Within.admission? hF _ _ g
  | valueOf _ => exact Build.Within.valueOf hR _ g
  | convert _ _ => exact Attempt.Within.convert hR _ _ g
  | deferConversion _ _ => exact hR.expr _ _ g
  | convertToBool _ => exact Attempt.Within.convertToBool hR _ g
  | commonType _ _ => exact Build.Within.commonType? hF _ _ g
  | logical op _ _ => exact Attempt.Within.logical hR op _ _ g
  | logicalNot _ => exact Attempt.Within.logicalNot hR _ g
  | comparison op _ _ => exact Attempt.Within.comparison hR op _ _ g
  | arithmetic op _ _ => exact Attempt.Within.arithmetic hR op _ _ g
  | initZero _ => exact Attempt.Within.initZero hR _ g
  | initDefault _ => exact Attempt.Within.initDefault hF _ g
  | initValue _ => exact Attempt.Within.initValue hR _ g
  | initReference _ _ => exact Attempt.Within.initReference hF _ _ g
  | initFrom _ _ => exact Attempt.Within.initFrom hR _ _ g
  | substitute _ _ => exact Build.Within.substitute hF _ _ g
  | deduce _ _ _ => exact Attempt.Within.deduce hF _ _ _ g
  | specialize _ _ => exact hspecialize _ _

/-- **An operation spares every declaration that it does not complete.** -/
theorem Operation.spares {g : Graph} {x : Build α} (hx : Operation g x)
    (hcompletes : ¬ x.Completes d) (hd : g.contains d = true) : g.Spares d (x g).2 := by
  refine hx.within (frame_spares d) (fun template s => ?_) fun y hy => ?_
  · exact (Attempt.Spares.specialize template s g hd).1
  · have hne : y ≠ d := by
      rintro rfl
      exact hcompletes hy
    cases hy with
    | setContext context => exact spares_setContext hne context
    | define definition => exact spares_define hne definition
    | setInitializer init => exact spares_setInitializer hne init

end SemanticCore
