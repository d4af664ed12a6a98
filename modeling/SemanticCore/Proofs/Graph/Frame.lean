import SemanticCore.Constraint.Admission
import SemanticCore.Constraint.Subsumption
import SemanticCore.Expr.Operator
import SemanticCore.Initialization
import SemanticCore.Proofs.Graph.Yields
import SemanticCore.Template.Deduction
import SemanticCore.Template.Specialization

/-!
# What every construction keeps

Constructions on a graph are put together from a few primitive additions.  A relation between a
graph and what becomes of it holds for all of them as soon as it is a preorder that holds for each
primitive, that is a `Graph.Frame`, or a `Graph.ExprFrame` where expressions are built.  Nothing is
asked of the graph or of the handles that a construction is given, so a construction is shown to
stay `Build.Within` the relation by looking at its steps alone.

The constructions that complete a declaration, by placing, defining or initializing it, are no
additions and not among them.
-/

set_option autoImplicit false
namespace SemanticCore

open SemanticCore.Graph

variable {α β ε : Type} {R : Graph → Graph → Prop}

/-- Whatever graph the computation is run on, the relation holds between it and the result. -/
def Build.Within (R : Graph → Graph → Prop) (x : Build α) : Prop :=
  ∀ g, R g (x g).2

/-- The same of a computation that may fail, whether or not it does. -/
def Attempt.Within (R : Graph → Graph → Prop) (x : Attempt ε α) : Prop :=
  Build.Within R x.run

/-! ## Steps -/

namespace Build.Within

theorem pure (hR : Frame R) (a : α) : Within R (Pure.pure a : Build α) := fun g => hR.refl g

theorem bind (hR : Frame R) {x : Build α} {f : α → Build β} (hx : Within R x)
    (hf : ∀ a, Within R (f a)) : Within R (x >>= f) :=
  fun g => hR.trans (hx g) (hf (x g).1 (x g).2)

theorem get_bind {f : Graph → Build β} (hf : ∀ g, Within R (f g)) :
    Within R ((get : Build Graph) >>= f) := fun g => hf g g

theorem mapM (hR : Frame R) {f : α → Build β} (as : List α) (hf : ∀ a, Within R (f a)) :
    Within R (as.mapM f) := by
  induction as with
  | nil => exact .pure hR []
  | cons a as ih =>
    rw [List.mapM_cons]
    exact .bind hR (hf a) fun _ => .bind hR ih fun _ => .pure hR _

end Build.Within

namespace Attempt.Within

theorem pure (hR : Frame R) (a : α) : Within R (Pure.pure a : Attempt ε α) := fun g => hR.refl g

theorem throw (hR : Frame R) (e : ε) : Within R (MonadExcept.throw e : Attempt ε α) :=
  fun g => hR.refl g

theorem bind (hR : Frame R) {x : Attempt ε α} {f : α → Attempt ε β} (hx : Within R x)
    (hf : ∀ a, Within R (f a)) : Within R (x >>= f) := by
  intro g
  have hg : R g (x g).2 := hx g
  rcases hxg : x g with ⟨e | a, g'⟩
  · rw [hxg] at hg
    rwa [ExceptT.run, bind_of_error hxg]
  · rw [hxg] at hg
    rw [ExceptT.run, bind_of_ok hxg]
    exact hR.trans hg (hf a g')

theorem get_bind {f : Graph → Attempt ε β} (hf : ∀ g, Within R (f g)) :
    Within R ((get : Attempt ε Graph) >>= f) := fun g => hf g g

theorem lift {x : Build α} (hx : Build.Within R x) : Within R (liftM x : Attempt ε α) :=
  fun g => hx g

theorem throw_bind (hR : Frame R) (e : ε) {f : α → Attempt ε β} :
    Within R ((MonadExcept.throw e : Attempt ε α) >>= f) := fun g => hR.refl g

theorem guarded (hR : Frame R) {c : Prop} [Decidable c] {x : Attempt ε α} (e : ε)
    (hx : Within R x) : Within R (if c then x else MonadExcept.throw e) := by
  split
  · exact hx
  · exact .throw hR e

theorem mapM (hR : Frame R) {f : α → Attempt ε β} (as : List α) (hf : ∀ a, Within R (f a)) :
    Within R (as.mapM f) := by
  induction as with
  | nil => exact .pure hR []
  | cons a as ih =>
    rw [List.mapM_cons]
    exact .bind hR (hf a) fun _ => .bind hR ih fun _ => .pure hR _

theorem foldlM (hR : Frame R) {f : β → α → Attempt ε β} (as : List α) (b : β)
    (hf : ∀ b a, Within R (f b a)) : Within R (as.foldlM f b) := by
  induction as generalizing b with
  | nil => exact .pure hR b
  | cons a as ih =>
    rw [List.foldlM_cons]
    exact .bind hR (hf b a) ih

end Attempt.Within

/-! ## Names and types -/

namespace Build.Within

variable (hR : Frame R)
include hR

theorem identifier (s : String) : Within R (Build.identifier s) :=
  .bind hR (hR.symbol s) fun _ => hR.name _

theorem placeholderName : Within R Build.placeholderName :=
  .bind hR hR.fresh fun _ => hR.name _

theorem intType : Within R Build.intType :=
  .get_bind fun _ => hR.type _

theorem uintType : Within R Build.uintType :=
  .get_bind fun _ => hR.type _

theorem autoType : Within R Build.autoType :=
  .bind hR hR.fresh fun _ => hR.type _

theorem declautoType : Within R Build.declautoType :=
  .bind hR hR.fresh fun _ => hR.type _

theorem qualifiedType (t : TypeHandle) (quals : Qualifiers) :
    Within R (Build.qualifiedType t quals) := by
  refine .get_bind fun g => ?_
  split
  · exact .pure hR t
  · split
    · exact .pure hR t
    · exact hR.type _
  · split
    · exact .pure hR t
    · exact hR.type _

end Build.Within

namespace Attempt.Within

variable (hR : Frame R)
include hR

theorem templateName (d : DeclHandle) (args : List Term) : Within R (Build.templateName d args) :=
  .get_bind fun _ => guarded hR _ (.lift (hR.name _))

theorem conceptName (d : DeclHandle) (args : List Term) : Within R (Build.conceptName d args) :=
  .get_bind fun _ => guarded hR _ (.lift (hR.name _))

theorem classType (d : DeclHandle) : Within R (Build.classType d) :=
  .get_bind fun _ => guarded hR _ (.lift (hR.type _))

theorem typenameType (d : DeclHandle) : Within R (Build.typenameType d) :=
  .get_bind fun _ => guarded hR _ (.lift (hR.type _))

theorem objectParamTypes (params : List DeclHandle) :
    Within R (Build.objectParamTypes params) := by
  refine .get_bind fun g => mapM hR params fun p => ?_
  split
  · exact .pure hR _
  · exact .throw hR _

theorem functionType (params : List DeclHandle) (ret : TypeHandle) :
    Within R (Build.functionType params ret) :=
  .bind hR (objectParamTypes hR params) fun _ => .lift (hR.type _)

theorem functionDecl (n : NameHandle) (params : List DeclHandle) (ret : TypeHandle) :
    Within R (Build.functionDecl n params ret) :=
  .bind hR (functionType hR params ret) fun _ => .lift (hR.decl _ _)

theorem conceptConstraint (d : DeclHandle) (args : List Term) :
    Within R (Build.conceptConstraint d args) :=
  .get_bind fun _ => guarded hR _ (.lift (hR.constraint _))

end Attempt.Within

/-! ## Declarations and constraints -/

namespace Build.Within

variable (hR : Frame R)
include hR

theorem templateDecl (params : List DeclHandle) (pattern : DeclHandle)
    (constraint : Option ExprHandle) :
    Within R (Build.templateDecl params pattern constraint) :=
  .get_bind fun _ => hR.decl _ _

theorem conceptOfExpr (n : NameHandle) (params : List DeclHandle) (e : ExprHandle) :
    Within R (Build.conceptOfExpr n params e) :=
  .bind hR (hR.defn _) fun _ => hR.decl _ _

theorem conjunction (l r : ConsHandle) : Within R (Build.conjunction l r) := by
  rw [Build.conjunction]
  split
  · exact .pure hR l
  · split
    · exact hR.constraint _
    · exact hR.constraint _

theorem disjunction (l r : ConsHandle) : Within R (Build.disjunction l r) := by
  rw [Build.disjunction]
  split
  · exact .pure hR l
  · split
    · exact hR.constraint _
    · exact hR.constraint _

theorem normalize (e : ExprHandle) : Within R (Build.normalize e) := by
  obtain ⟨i⟩ := e
  induction i using Nat.strongRecOn with
  | ind i ih =>
    rw [Build.normalize]
    refine .get_bind fun g => ?_
    split
    · split
      · next l r _ hlt =>
        exact .bind hR (ih l.index hlt.1) fun _ => .bind hR (ih r.index hlt.2) fun _ =>
          conjunction hR _ _
      · exact hR.constraint _
    · split
      · next l r _ hlt =>
        exact .bind hR (ih l.index hlt.1) fun _ => .bind hR (ih r.index hlt.2) fun _ =>
          disjunction hR _ _
      · exact hR.constraint _
    · refine .bind hR (Attempt.Within.conceptConstraint hR _ _) fun r => ?_
      split
      · exact .pure hR _
      · exact hR.constraint _
    · exact hR.constraint _

theorem subsumes (p q : ExprHandle) : Within R (Build.subsumes p q) :=
  .bind hR (normalize hR p) fun _ => .bind hR (normalize hR q) fun _ => .get_bind fun _ =>
    .pure hR _

theorem admission? (c e : ExprHandle) : Within R (Build.admission? c e) :=
  .bind hR (normalize hR c) fun _ => .get_bind fun _ => .pure hR _

/-! ## Common types -/

theorem promote? (t : TypeHandle) : Within R (Build.promote? t) := by
  refine .get_bind fun g => ?_
  cases g.type t with
  | bool => exact .bind hR (intType hR) fun _ => .pure hR _
  | _ => exact .pure hR _

theorem commonType? (a b : TypeHandle) : Within R (Build.commonType? a b) := by
  refine .bind hR (promote? hR a) fun r => ?_
  split
  · refine .bind hR (promote? hR b) fun r' => ?_
    split
    · refine .get_bind fun g => .get_bind fun g' => ?_
      split
      · exact .pure hR _
      · exact .pure hR _
      · exact .bind hR (hR.type _) fun _ => .pure hR _
      · exact .pure hR _
    · exact .pure hR _
  · exact .pure hR _

/-! ## Templates -/

theorem substitute (s : Substitution) (t : TypeHandle) : Within R (Build.substitute s t) := by
  obtain ⟨i⟩ := t
  induction i using Nat.strongRecOn with
  | ind i ih =>
    have hpart : ∀ x : TypeHandle,
        Within R (if _ : x < ⟨i⟩ then Build.substitute s x else Pure.pure x : Build TypeHandle) := by
      intro x
      split
      · next hlt => exact ih x.index hlt
      · exact .pure hR x
    rw [Build.substitute]
    refine .get_bind fun g => ?_
    split
    · refine .get_bind fun g' => ?_
      split
      · exact .pure hR _
      · exact .bind hR (.mapM hR _ hpart) fun _ => .bind hR (hpart _) fun _ => hR.type _
      · exact .bind hR (hpart _) fun _ => qualifiedType hR _ _
      · exact .bind hR (hpart _) fun _ => hR.type _
      · exact .bind hR (hpart _) fun _ => hR.type _
      · exact .bind hR (hpart _) fun _ => hR.type _
      · exact .pure hR _
    · exact .pure hR _

end Build.Within

namespace Attempt.Within

section Frame

variable (hR : Frame R)
include hR

theorem fillDefault (s : Substitution) (d : DeclHandle) : Within R (Build.fillDefault s d) := by
  rw [Build.fillDefault]
  split
  · exact .pure hR s
  · refine .get_bind fun g => ?_
    split
    · exact .throw hR _
    · refine .bind hR (.lift (.substitute hR s _)) fun t => ?_
      cases s.bindType d t with
      | ok s' => exact .pure hR s'
      | error e => exact .throw hR e

theorem deduce (tparams params : List DeclHandle) (args : List ExprHandle) :
    Within R (Build.deduce tparams params args) := by
  rw [Build.deduce]
  split
  · exact .throw hR _
  · refine .get_bind fun g => ?_
    cases g.matchArgs params args (.ofParams tparams) with
    | ok s => exact foldlM hR tparams s (fillDefault hR)
    | error e => exact .throw hR e

theorem specializeParam (s : Substitution) (p : DeclHandle) :
    Within R (Build.specializeParam s p) := by
  refine .get_bind fun g => ?_
  split
  · exact .throw hR _
  · exact .get_bind fun _ => .bind hR (.lift (.substitute hR s _)) fun _ => .lift (hR.decl _ _)

/-! ## Initializers without an expression -/

theorem initDefault (t : TypeHandle) : Within R (Build.initDefault t) := by
  refine .get_bind fun g => ?_
  split
  · exact .throw hR _
  · exact .lift (hR.init _ _)

theorem initReference (t : TypeHandle) (e : ExprHandle) : Within R (Build.initReference t e) := by
  refine .get_bind fun g => ?_
  split
  · exact .throw hR _
  · refine .get_bind fun _ => .get_bind fun _ => .get_bind fun _ => .get_bind fun _ =>
      .get_bind fun _ => ?_
    split
    · exact .lift (hR.init _ _)
    · exact .throw hR _

end Frame
end Attempt.Within

/-! ## Expressions and conversions -/

namespace Build.Within

variable (hR : ExprFrame R)
include hR

theorem intLiteral (value : Int) : Within R (Build.intLiteral value) :=
  .bind hR.toFrame (intType hR.toFrame) fun _ => hR.expr _ _

theorem uintLiteral (value : Int) : Within R (Build.uintLiteral value) :=
  .bind hR.toFrame (uintType hR.toFrame) fun _ => hR.expr _ _

theorem valueOf (e : ExprHandle) : Within R (Build.valueOf e) := by
  refine .get_bind fun _ => .get_bind fun _ => ?_
  split
  · exact .get_bind fun _ => hR.expr _ _
  · exact .pure hR.toFrame e

theorem copyDeferred (t : TypeHandle) (e : ExprHandle) : Within R (Build.copyDeferred t e) :=
  .bind hR.toFrame (hR.expr _ _) fun _ => hR.init _ _

theorem eitherDependent (l r : ExprHandle) : Within R (Build.eitherDependent l r) :=
  .get_bind fun _ => .pure hR.toFrame _

end Build.Within

namespace Attempt.Within

variable (hR : ExprFrame R)
include hR

theorem referenceTo (d : DeclHandle) : Within R (Build.referenceTo d) := by
  refine .get_bind fun g => ?_
  split
  · exact .bind hR.toFrame (.lift (hR.type _)) fun _ => .lift (hR.expr _ _)
  · exact .throw hR.toFrame _

theorem templateReference (d : DeclHandle) : Within R (Build.templateReference d) :=
  .get_bind fun _ => guarded hR.toFrame _
    (.bind hR.toFrame (.lift (.autoType hR.toFrame)) fun _ => .lift (hR.expr _ _))

theorem conceptCheck (d : DeclHandle) (args : List Term) : Within R (Build.conceptCheck d args) :=
  .get_bind fun _ => guarded hR.toFrame _ (.lift (hR.expr _ _))

theorem synthesizedValue (d : DeclHandle) : Within R (Build.synthesizedValue d) := by
  refine .get_bind fun g => ?_
  split
  · exact .lift (hR.expr _ _)
  · exact .throw hR.toFrame _

theorem callTo (t : TypeHandle) (d : DeclHandle) (args : List ExprHandle) :
    Within R (Build.callTo t d args) :=
  .bind hR.toFrame (referenceTo hR d) fun _ => .lift (hR.expr _ _)

theorem convert (e : ExprHandle) (t : TypeHandle) : Within R (Build.convert e t) := by
  refine .bind hR.toFrame (.lift (.valueOf hR e)) fun _ => .get_bind fun _ => .get_bind fun _ => ?_
  dsimp only
  split
  · exact .pure hR.toFrame _
  · refine .get_bind fun _ => ?_
    split
    · exact .lift (hR.expr _ _)
    · exact .throw hR.toFrame _

theorem convertToBool (e : ExprHandle) : Within R (Build.convertToBool e) := by
  refine .get_bind fun _ => ?_
  split
  · exact .lift (hR.expr _ _)
  · exact convert hR _ _

theorem convertBoth (l r : ExprHandle) (t : TypeHandle) : Within R (Build.convertBoth l r t) :=
  .bind hR.toFrame (convert hR l t) fun _ => .bind hR.toFrame (convert hR r t) fun _ =>
    .pure hR.toFrame _

/-! ## Operators -/

theorem logical (op : BinaryOp) (l r : ExprHandle) : Within R (Build.logical op l r) :=
  .bind hR.toFrame (convertToBool hR l) fun _ => .bind hR.toFrame (convertToBool hR r) fun _ =>
    .lift (hR.expr _ _)

theorem logicalNot (e : ExprHandle) : Within R (Build.logicalNot e) :=
  .bind hR.toFrame (convertToBool hR e) fun _ => .lift (hR.expr _ _)

theorem comparison (op : BinaryOp) (l r : ExprHandle) : Within R (Build.comparison op l r) := by
  rw [Build.comparison]
  split
  · exact .throw_bind hR.toFrame _
  · refine .bind hR.toFrame (.lift (.valueOf hR l)) fun _ =>
      .bind hR.toFrame (.lift (.valueOf hR r)) fun _ =>
      .bind hR.toFrame (.lift (.eitherDependent hR _ _)) fun _ => ?_
    split
    · exact .lift (hR.expr _ _)
    · refine .get_bind fun _ => .get_bind fun _ =>
        .bind hR.toFrame (.lift (.commonType? hR.toFrame _ _)) fun _ => ?_
      split
      · exact .bind hR.toFrame (convertBoth hR _ _ _) fun _ => .lift (hR.expr _ _)
      · split
        · exact .lift (hR.expr _ _)
        · exact .throw hR.toFrame _

theorem arithmetic (op : BinaryOp) (l r : ExprHandle) : Within R (Build.arithmetic op l r) := by
  rw [Build.arithmetic]
  split
  · exact .throw_bind hR.toFrame _
  · refine .bind hR.toFrame (.lift (.valueOf hR l)) fun _ =>
      .bind hR.toFrame (.lift (.valueOf hR r)) fun _ =>
      .bind hR.toFrame (.lift (.eitherDependent hR _ _)) fun _ => ?_
    split
    · exact .bind hR.toFrame (.lift (.autoType hR.toFrame)) fun _ => .lift (hR.expr _ _)
    · refine .get_bind fun _ => .get_bind fun _ =>
        .bind hR.toFrame (.lift (.commonType? hR.toFrame _ _)) fun _ => ?_
      split
      · exact .bind hR.toFrame (convertBoth hR _ _ _) fun _ => .lift (hR.expr _ _)
      · exact .throw hR.toFrame _

/-! ## Initializers -/

theorem initZero (t : TypeHandle) : Within R (Build.initZero t) := by
  refine .get_bind fun _ => ?_
  split
  · exact .throw_bind hR.toFrame _
  · refine .get_bind fun _ => ?_
    split
    · exact .lift (hR.init _ _)
    · refine .get_bind fun _ => ?_
      split
      · exact .throw_bind hR.toFrame _
      · refine .get_bind fun _ => .get_bind fun _ => ?_
        dsimp only
        split
        · refine .get_bind fun _ => ?_
          split
          · exact .bind hR.toFrame (.lift (hR.expr _ _)) fun _ => .lift (hR.init _ _)
          · exact .bind hR.toFrame (.lift (hR.expr _ _)) fun _ => .lift (hR.init _ _)
        · exact .throw hR.toFrame _

theorem initValue (t : TypeHandle) : Within R (Build.initValue t) := by
  refine .get_bind fun _ => ?_
  split
  · exact .throw_bind hR.toFrame _
  · refine .get_bind fun _ => ?_
    split
    · exact .throw_bind hR.toFrame _
    · exact initZero hR t

theorem convertAndCopy (t : TypeHandle) (e : ExprHandle) :
    Within R (Build.convertAndCopy t e) := by
  refine .get_bind fun _ => .get_bind fun _ => .get_bind fun _ => ?_
  split
  · exact .lift (.copyDeferred hR t e)
  · refine .get_bind fun _ => ?_
    split
    · exact .throw hR.toFrame _
    · exact .bind hR.toFrame (convert hR e t) fun _ => .lift (hR.init _ _)

theorem initCopy (t : TypeHandle) (e : ExprHandle) : Within R (Build.initCopy t e) := by
  refine .get_bind fun _ => ?_
  split
  · exact initReference hR.toFrame t e
  · refine .get_bind fun _ => ?_
    split
    · exact .lift (.copyDeferred hR t e)
    · refine .get_bind fun _ => ?_
      split
      · exact .throw hR.toFrame _
      · refine .get_bind fun _ => ?_
        split
        · exact .throw hR.toFrame _
        · exact convertAndCopy hR t e

theorem initDirect (t : TypeHandle) (es : List ExprHandle) : Within R (Build.initDirect t es) := by
  cases es with
  | nil =>
    refine .get_bind fun _ => ?_
    dsimp only
    split
    · exact .throw_bind hR.toFrame _
    · exact initValue hR t
  | cons e rest =>
    refine .get_bind fun _ => ?_
    dsimp only
    split
    · exact .throw_bind hR.toFrame _
    · refine .get_bind fun _ => ?_
      split
      · exact .throw hR.toFrame _
      · refine .get_bind fun _ => ?_
        split
        · exact initReference hR.toFrame t e
        · refine .get_bind fun _ => ?_
          split
          · exact .lift (.copyDeferred hR t e)
          · refine .get_bind fun _ => ?_
            split
            · exact .throw hR.toFrame _
            · exact convertAndCopy hR t e

theorem initFrom (t : TypeHandle) (written : InitSyntax) :
    Within R (Build.initFrom t written) := by
  cases written with
  | equal e => exact initCopy hR t e
  | paren es => exact initDirect hR t es
  | brace es => exact .throw hR.toFrame _

end Attempt.Within
end SemanticCore
