import SemanticCore.Proofs.Graph.Frame

/-!
# Computations that add no expression

Names, types, declarations and constraints are built without building expressions.  `Build.Quiet`
says so of a computation: on whatever graph it is run, the expressions stay as they are.  This is a
relation that every primitive addition satisfies but that of an expression (`Graph.frame_exprs`),
and completing a declaration satisfies it too.
-/

set_option autoImplicit false
namespace SemanticCore

variable {α β ε ε' : Type}

/-- The computation adds no expression. -/
def Build.Quiet (x : Build α) : Prop :=
  ∀ g, (x g).2.exprs = g.exprs

/-- The computation adds no expression, whether or not it fails. -/
def Attempt.Quiet (x : Attempt ε α) : Prop :=
  Build.Quiet x.run

/-- **Only expressions are added to the expressions.** -/
theorem Graph.frame_exprs : Graph.Frame fun g g' => g'.exprs = g.exprs where
  refl _ := rfl
  trans h h' := h'.trans h
  fresh _ := rfl
  symbol _ _ := rfl
  name _ _ := rfl
  type f g := by
    rcases Build.type_cases f g with ⟨t, -, h⟩ | ⟨-, types, -, h⟩
    · rw [h]
    · rw [h]
  constraint _ _ := rfl
  decl _ _ _ := rfl
  stmt _ _ := rfl
  defn _ _ := rfl
  init _ _ _ := rfl
  req _ _ := rfl

open SemanticCore.Graph

/-! ## Steps -/

namespace Build.Quiet

theorem bind {x : Build α} {f : α → Build β} (hx : x.Quiet) (hf : ∀ a, Quiet (f a)) :
    Quiet (x >>= f) := Build.Within.bind frame_exprs hx hf

end Build.Quiet

namespace Attempt.Quiet

theorem pure (a : α) : Quiet (Pure.pure a : Attempt ε α) := fun _ => rfl

theorem throw (e : ε) : Quiet (MonadExcept.throw e : Attempt ε α) := fun _ => rfl

theorem bind {x : Attempt ε α} {f : α → Attempt ε β} (hx : x.Quiet) (hf : ∀ a, Quiet (f a)) :
    Quiet (x >>= f) := Attempt.Within.bind frame_exprs hx hf

theorem pure_bind {a : α} {f : α → Attempt ε β} (hf : Quiet (f a)) :
    Quiet (Pure.pure a >>= f) := hf

theorem get_bind {f : Graph → Attempt ε β} (hf : ∀ g, Quiet (f g)) :
    Quiet ((get : Attempt ε Graph) >>= f) := fun g => hf g g

theorem lift {x : Build α} (hx : x.Quiet) : Quiet (liftM x : Attempt ε α) := fun g => hx g

theorem adapt {x : Attempt ε α} {k : ε → ε'} (hx : x.Quiet) :
    Quiet (x.adapt k : Attempt ε' α) := fun g => hx g

end Attempt.Quiet

/-! ## Names, types and nodes -/

namespace Build.Quiet

theorem type (f : TypeForm) : Quiet (Build.type f) := frame_exprs.type f

theorem decl (n : NameHandle) (f : DeclForm) : Quiet (Build.decl n f) := frame_exprs.decl n f

theorem defn (f : DefForm) : Quiet (Build.defn f) := frame_exprs.defn f

theorem init (f : InitForm) (t : TypeHandle) : Quiet (Build.init f t) := frame_exprs.init f t

theorem intType : Quiet Build.intType := Within.intType frame_exprs

theorem uintType : Quiet Build.uintType := Within.uintType frame_exprs

theorem autoType : Quiet Build.autoType := Within.autoType frame_exprs

end Build.Quiet

namespace Attempt.Quiet

theorem templateName (d : DeclHandle) (args : List Term) : Quiet (Build.templateName d args) :=
  Within.templateName frame_exprs d args

theorem typenameType (d : DeclHandle) : Quiet (Build.typenameType d) :=
  Within.typenameType frame_exprs d

end Attempt.Quiet

/-! ## Declarations -/

namespace Build.Quiet

theorem templateDecl (params : List DeclHandle) (pattern : DeclHandle)
    (constraint : Option ExprHandle) : Quiet (Build.templateDecl params pattern constraint) :=
  Within.templateDecl frame_exprs params pattern constraint

theorem conceptOfExpr (n : NameHandle) (params : List DeclHandle) (e : ExprHandle) :
    Quiet (Build.conceptOfExpr n params e) := Within.conceptOfExpr frame_exprs n params e

theorem modifyDecl (d : DeclHandle) (k : Decl → Decl) : Quiet (Build.modifyDecl d k) :=
  fun _ => rfl

theorem setContext (d c : DeclHandle) : Quiet (Build.setContext d c) := modifyDecl _ _

theorem setContexts (ds : List DeclHandle) (c : DeclHandle) : Quiet (Build.setContexts ds c) := by
  induction ds with
  | nil => exact fun _ => rfl
  | cons d ds ih => exact .bind (setContext d c) fun _ => ih

end Build.Quiet

namespace Attempt.Quiet

theorem functionDecl (n : NameHandle) (params : List DeclHandle) (ret : TypeHandle) :
    Quiet (Build.functionDecl n params ret) := Within.functionDecl frame_exprs n params ret

theorem define (d : DeclHandle) (x : DefHandle) : Quiet (Build.define d x) := by
  refine .get_bind fun g => ?_
  split
  · exact .throw _
  · exact .throw _
  · exact .lift (.modifyDecl _ _)

theorem setInitializer (d : DeclHandle) (i : InitHandle) : Quiet (Build.setInitializer d i) := by
  refine .get_bind fun g => ?_
  split
  · exact .lift (.modifyDecl _ _)
  · exact .throw _
  · exact .throw _

end Attempt.Quiet

/-! ## Constraints -/

namespace Build.Quiet

theorem normalize (e : ExprHandle) : Quiet (Build.normalize e) := Within.normalize frame_exprs e

theorem subsumes (p q : ExprHandle) : Quiet (Build.subsumes p q) :=
  Within.subsumes frame_exprs p q

theorem admission? (c e : ExprHandle) : Quiet (Build.admission? c e) :=
  Within.admission? frame_exprs c e

/-! ## Common types and initializers without an expression -/

theorem commonType? (a b : TypeHandle) : Quiet (Build.commonType? a b) :=
  Within.commonType? frame_exprs a b

end Build.Quiet

namespace Attempt.Quiet

theorem initDefault (t : TypeHandle) : Quiet (Build.initDefault t) :=
  Within.initDefault frame_exprs t

theorem initReference (t : TypeHandle) (e : ExprHandle) : Quiet (Build.initReference t e) :=
  Within.initReference frame_exprs t e

end Attempt.Quiet

/-! ## Templates -/

theorem Build.Quiet.substitute (s : Substitution) (t : TypeHandle) :
    Quiet (Build.substitute s t) := Within.substitute frame_exprs s t

namespace Attempt.Quiet

theorem deduce (tparams params : List DeclHandle) (args : List ExprHandle) :
    Quiet (Build.deduce tparams params args) := Within.deduce frame_exprs tparams params args

theorem specialize (template : DeclHandle) (s : Substitution) :
    Quiet (Build.specialize template s) := by
  refine .get_bind fun g => ?_
  split
  · split
    · refine pure_bind (.bind (adapt (templateName _ _)) fun n => ?_)
      refine .bind (Within.mapM frame_exprs _ (Within.specializeParam frame_exprs s)) fun ps =>
        .bind (.lift (.substitute s _)) fun r => ?_
      refine .bind (adapt (functionDecl _ _ _)) fun spec => ?_
      refine .bind (.lift (.setContexts _ _)) fun _ => .get_bind fun g' => ?_
      split
      · exact .bind (.lift (.setContext _ _)) fun _ => .pure _
      · exact .pure _
    · exact .throw _
  · exact .throw _

end Attempt.Quiet
end SemanticCore
