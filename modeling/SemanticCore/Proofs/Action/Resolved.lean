import SemanticCore.Proofs.Action.Reachable
import SemanticCore.Proofs.Action.Typing

/-!
# Graphs that are built by resolution

Operators, calls and conversions can be recorded as they are, with any operands and any type
(`Build.Direct`).  A client that leaves this to resolution never does so; everything else it may do
as it likes (`ResolvedOperation`).  `Graph.Resolved free` says of a graph that such clients, with
the oracle that answers by structure, have made it from an empty translation unit.  If `free` holds,
they may record conversions as they are.

* `Operation.resolved_or_direct` — nothing but what is recorded as it is is left out.
* `Course.typing.runs` — a run adds well-typed expressions only.
* `Graph.expr_typing_of_resolved` — **every expression of such a graph is well typed.**
-/

set_option autoImplicit false
namespace SemanticCore

open SemanticCore.Graph

/-! ## Operations that resolve -/

/-- An operator, a call or a conversion is recorded as it is.  An operator that is neither `&&` nor
`||` is not one that `Build.logical` resolves. -/
inductive Build.Direct (free : Prop) : {α : Type} → Build α → Prop
  | binary (op : BinaryOp) (t : TypeHandle) (lhs rhs : ExprHandle) :
    Direct free (Build.binary op t lhs rhs)
  | logical {op : BinaryOp} (hop : op.isLogical = false) (lhs rhs : ExprHandle) :
    Direct free (Build.logical op lhs rhs).run
  | negation (t : TypeHandle) (e : ExprHandle) : Direct free (Build.negation t e)
  | call (t : TypeHandle) (callee : ExprHandle) (args : List ExprHandle) :
    Direct free (Build.call t callee args)
  | callTo (t : TypeHandle) (d : DeclHandle) (args : List ExprHandle) :
    Direct free (Build.callTo t d args).run
  | conversion {kind : ConversionKind} (hfree : ¬ free) (hkind : kind ≠ .dependent) (t : TypeHandle)
    (e : ExprHandle) : Direct free (Build.conversion kind t e)

/-- An operation that adds no expression, or adds expressions as they were resolved. -/
inductive ResolvedOperation (free : Prop) (g : Graph) : {α : Type} → Build α → Prop
  | quiet {α : Type} {x : Build α} (h : Operation g x) (hq : x.Quiet) : ResolvedOperation free g x
  | boolLiteral (value : Bool) : ResolvedOperation free g (Build.boolLiteral value)
  | integerLiteral {t} (value : Int) (ht : g.contains t = true) :
    ResolvedOperation free g (Build.integerLiteral t value)
  | intLiteral (value : Int) : ResolvedOperation free g (Build.intLiteral value)
  | uintLiteral (value : Int) : ResolvedOperation free g (Build.uintLiteral value)
  | referenceTo {d} (hd : g.contains d = true) :
    ResolvedOperation free g (Build.referenceTo d).run
  | templateReference {d} (hd : g.contains d = true) :
    ResolvedOperation free g (Build.templateReference d).run
  | conceptCheck {d args} (hd : g.contains d = true) (ha : ∀ a ∈ args, Term.Fits g a) :
    ResolvedOperation free g (Build.conceptCheck d args).run
  | synthesizedValue {d} (hd : g.contains d = true) :
    ResolvedOperation free g (Build.synthesizedValue d).run
  | requiresExpr {tparams params reqs} (ht : ∀ d ∈ tparams, g.contains d = true)
    (hp : ∀ d ∈ params, g.contains d = true) (hr : ∀ r ∈ reqs, g.contains r = true) :
    ResolvedOperation free g (Build.requiresExpr tparams params reqs)
  | valueOf {e} (he : g.contains e = true) : ResolvedOperation free g (Build.valueOf e)
  | convert {e t} (he : g.contains e = true) (ht : g.contains t = true) :
    ResolvedOperation free g (Build.convert e t).run
  | deferConversion {e t} (he : g.contains e = true) (ht : g.contains t = true) :
    ResolvedOperation free g (Build.deferConversion e t)
  | convertToBool {e} (he : g.contains e = true) :
    ResolvedOperation free g (Build.convertToBool e).run
  | freeConversion {t e} (hfree : free) (kind : ConversionKind) (ht : g.contains t = true)
    (he : g.contains e = true) : ResolvedOperation free g (Build.conversion kind t e)
  | logical {op l r} (hop : BinaryOp.isLogical op = true) (hl : g.contains l = true)
    (hr : g.contains r = true) : ResolvedOperation free g (Build.logical op l r).run
  | logicalNot {e} (he : g.contains e = true) : ResolvedOperation free g (Build.logicalNot e).run
  | comparison {l r} (op : BinaryOp) (hl : g.contains l = true) (hr : g.contains r = true) :
    ResolvedOperation free g (Build.comparison op l r).run
  | arithmetic {l r} (op : BinaryOp) (hl : g.contains l = true) (hr : g.contains r = true) :
    ResolvedOperation free g (Build.arithmetic op l r).run
  | initZero {t} (ht : g.contains t = true) : ResolvedOperation free g (Build.initZero t).run
  | initValue {t} (ht : g.contains t = true) : ResolvedOperation free g (Build.initValue t).run
  | initFrom {t written} (ht : g.contains t = true)
    (hw : ∀ e ∈ InitSyntax.exprs written, g.contains e = true) :
    ResolvedOperation free g (Build.initFrom t written).run

variable {α ρ : Type} {free : Prop} {g : Graph}

/-- **Every operation that does not record an expression as it is resolves.** -/
theorem Operation.resolved_or_direct {x : Build α} (h : Operation g x) :
    ResolvedOperation free g x ∨ Build.Direct free x := by
  have hquiet : ∀ {β : Type} {y : Build β}, Operation g y → y.Quiet →
      ResolvedOperation free g y ∨ Build.Direct free y := fun hy hq => .inl (.quiet hy hq)
  have hop := h
  cases h with
  | symbol s => exact hquiet hop (frame_exprs.symbol s)
  | identifier s => exact hquiet hop (Build.Within.identifier frame_exprs s)
  | placeholderName => exact hquiet hop (Build.Within.placeholderName frame_exprs)
  | templateName _ _ => exact hquiet hop (Attempt.Quiet.templateName _ _)
  | conceptName _ _ => exact hquiet hop (Attempt.Within.conceptName frame_exprs _ _)
  | qualifiedName _ _ => exact hquiet hop (frame_exprs.name _)
  | intTypeOf _ _ => exact hquiet hop (.type _)
  | intType => exact hquiet hop .intType
  | uintType => exact hquiet hop .uintType
  | autoType => exact hquiet hop .autoType
  | declautoType => exact hquiet hop (Build.Within.declautoType frame_exprs)
  | functionTypeOf _ _ => exact hquiet hop (.type _)
  | functionType _ _ => exact hquiet hop (Attempt.Within.functionType frame_exprs _ _)
  | qualifiedType _ _ => exact hquiet hop (Build.Within.qualifiedType frame_exprs _ _)
  | pointerType _ | referenceType _ | sequenceType _ | archetypeType _ => exact hquiet hop (.type _)
  | classType _ => exact hquiet hop (Attempt.Within.classType frame_exprs _)
  | typenameType _ => exact hquiet hop (Attempt.Quiet.typenameType _)
  | boolLiteral value => exact .inl (.boolLiteral value)
  | integerLiteral value ht => exact .inl (.integerLiteral value ht)
  | intLiteral value => exact .inl (.intLiteral value)
  | uintLiteral value => exact .inl (.uintLiteral value)
  | referenceTo hd => exact .inl (.referenceTo hd)
  | templateReference hd => exact .inl (.templateReference hd)
  | conceptCheck hd ha => exact .inl (.conceptCheck hd ha)
  | synthesizedValue hd => exact .inl (.synthesizedValue hd)
  | binary op _ _ _ => exact .inr (.binary op _ _ _)
  | negation _ _ => exact .inr (.negation _ _)
  | call _ _ _ => exact .inr (.call _ _ _)
  | callTo _ _ _ => exact .inr (.callTo _ _ _)
  | conversion kind ht he =>
    by_cases hfree : free
    · exact .inl (.freeConversion hfree kind ht he)
    · by_cases hkind : kind = .dependent
      · exact .inl (hkind ▸ .deferConversion he ht)
      · exact .inr (.conversion hfree hkind _ _)
  | requiresExpr ht hp hr => exact .inl (.requiresExpr ht hp hr)
  | namespaceDecl _ | variableDecl _ _ _ | classDecl _ | conceptDecl _ _ _ | objectParam _ _
  | valueParam _ _ | typeParam _ _ => exact hquiet hop (.decl _ _)
  | functionDecl _ _ _ => exact hquiet hop (Attempt.Quiet.functionDecl _ _ _)
  | templateDecl _ _ _ => exact hquiet hop (.templateDecl _ _ _)
  | conceptOfExpr _ _ _ => exact hquiet hop (.conceptOfExpr _ _ _)
  | setContext _ _ => exact hquiet hop (.setContext _ _)
  | define _ _ => exact hquiet hop (Attempt.Quiet.define _ _)
  | setInitializer _ _ => exact hquiet hop (Attempt.Quiet.setInitializer _ _)
  | stmt _ => exact hquiet hop (frame_exprs.stmt _)
  | defn _ => exact hquiet hop (.defn _)
  | init _ _ => exact hquiet hop (.init _ _)
  | req _ => exact hquiet hop (frame_exprs.req _)
  | conceptConstraint _ _ => exact hquiet hop (Attempt.Within.conceptConstraint frame_exprs _ _)
  | predicate _ => exact hquiet hop (frame_exprs.constraint _)
  | conjunction _ _ => exact hquiet hop (Build.Within.conjunction frame_exprs _ _)
  | disjunction _ _ => exact hquiet hop (Build.Within.disjunction frame_exprs _ _)
  | normalize _ => exact hquiet hop (.normalize _)
  | subsumes _ _ => exact hquiet hop (.subsumes _ _)
  | admission _ _ => exact hquiet hop (.admission? _ _)
  | valueOf he => exact .inl (.valueOf he)
  | convert he ht => exact .inl (.convert he ht)
  | deferConversion he ht => exact .inl (.deferConversion he ht)
  | convertToBool he => exact .inl (.convertToBool he)
  | commonType _ _ => exact hquiet hop (.commonType? _ _)
  | @logical l r op hl hr =>
    cases hlogical : op.isLogical with
    | true => exact .inl (.logical hlogical hl hr)
    | false => exact .inr (.logical hlogical l r)
  | logicalNot he => exact .inl (.logicalNot he)
  | comparison op hl hr => exact .inl (.comparison op hl hr)
  | arithmetic op hl hr => exact .inl (.arithmetic op hl hr)
  | initZero ht => exact .inl (.initZero ht)
  | initDefault _ => exact hquiet hop (Attempt.Quiet.initDefault _)
  | initValue ht => exact .inl (.initValue ht)
  | initReference _ _ => exact hquiet hop (Attempt.Quiet.initReference _ _)
  | initFrom ht hw => exact .inl (.initFrom ht hw)
  | substitute _ _ => exact hquiet hop (.substitute _ _)
  | deduce _ _ _ => exact hquiet hop (Attempt.Quiet.deduce _ _ _)
  | specialize _ _ => exact hquiet hop (Attempt.Quiet.specialize _ _)

/-- **An operation that resolves adds well-typed expressions only.** -/
theorem ResolvedOperation.growsTyped (hg : g.WellFormed) {x : Build α}
    (h : ResolvedOperation free g x) : g.GrowsTyped free (x g).2 := by
  cases h with
  | quiet h hq => exact .of_exprs (h.grows hg) (hq g)
  | boolLiteral value => exact (Build.Types.boolLiteral hg value).1
  | integerLiteral value ht => exact (Build.Types.integerLiteral hg value ht).1
  | intLiteral value => exact (Build.Types.intLiteral hg value).1
  | uintLiteral value => exact (Build.Types.uintLiteral hg value).1
  | referenceTo hd => exact (Attempt.Types.referenceTo hg _).1
  | templateReference hd => exact (Attempt.Types.templateReference hg _).1
  | conceptCheck hd ha => exact (Attempt.Types.conceptCheck hg ha).1
  | synthesizedValue hd => exact (Attempt.Types.synthesizedValue hg _).1
  | requiresExpr ht hp hr => exact (Build.Types.requiresExpr hg ht hp hr).1
  | valueOf he => exact (Build.Types.valueOf hg he).1
  | convert he ht => exact (Attempt.Types.convert hg he ht).1
  | deferConversion he ht => exact (Build.Types.deferConversion hg he ht).1
  | convertToBool he => exact (Attempt.Types.convertToBool hg he).1
  | freeConversion hfree kind ht he =>
    exact (Build.Types.expr hg ⟨ht, he⟩ (.freeConversion kind _ _ hfree)).1
  | logical hop hl hr => exact (Attempt.Types.logical hg hop hl hr).1
  | logicalNot he => exact (Attempt.Types.logicalNot hg he).1
  | comparison op hl hr => exact (Attempt.Types.comparison hg op hl hr).1
  | arithmetic op hl hr => exact (Attempt.Types.arithmetic hg op hl hr).1
  | initZero ht => exact (Attempt.Types.initZero hg ht).1
  | initValue ht => exact (Attempt.Types.initValue hg ht).1
  | initFrom ht hw => exact (Attempt.Types.initFrom hg ht hw).1

/-! ## Runs that resolve -/

/-- One operation that resolves leads from a graph to the other. -/
def Graph.ResolvedStep (free : Prop) (g g' : Graph) : Prop :=
  ∃ (α : Type) (x : Build α), ResolvedOperation free g x ∧ g' = (x g).2

/-- A client may run any series of operations that resolve and name any node of the graph. -/
def Rights.resolved (free : Prop) : Rights where
  build g x := Relation.ReflTransGen (Graph.ResolvedStep free) g (x g).2
  handle g h := g.contains h = true
  cut := True

theorem Graph.growsTyped_of_resolvedSteps (hg : g.WellFormed) {g' : Graph}
    (h : Relation.ReflTransGen (Graph.ResolvedStep free) g g') : g.GrowsTyped free g' := by
  induction h with
  | refl => exact .refl g
  | tail _ hstep ih =>
    obtain ⟨_, x, hx, rfl⟩ := hstep
    exact ih.trans hg (hx.growsTyped (ih.grows.wellFormed hg))

/-- **Operations that resolve add well-typed expressions only.** -/
theorem Course.typing.runs : (Course.typing free : Course ρ).Runs (.resolved free) where
  toDeclares := declares
  toFrames := frames
  handle h := h
  completes _ := trivial
  fails _ := trivial
  build hs hx :=
    have hgrow := growsTyped_of_resolvedSteps hs.1.graph hx
    ⟨⟨hgrow.grows, .refl _⟩, hgrow⟩
  client _ _ := ⟨⟨.refl _, .refl _⟩, .refl _⟩
  aside _ h := ⟨⟨.refl _, h.toSameFrames⟩, .refl _⟩
  restoreMarks m hs := restore hs m
  require hs _ := Course.typing.require hs.1 _
  nameExpr n hs := Course.typing.nameExpr hs n
  call hs hc ha := Course.typing.call hs hc ha

/-! ## Resolved graphs -/

namespace Graph

/-- The graph comes from that of an empty translation unit by operations that resolve, and by runs
of such operations with the oracle that answers by structure. -/
inductive Resolved (free : Prop) : Graph → Prop
  | initial (symbols : SymbolTable) (intPrecision : UInt16) :
    Resolved free (.initial symbols intPrecision)
  | operation {α : Type} {g : Graph} {x : Build α} (hg : Resolved free g)
    (hx : ResolvedOperation free g x) : Resolved free (x g).2
  | run {ρ α : Type} {s : Session ρ} {x : Action ρ α} {ms ms' : List Marks}
    (hg : Resolved free s.graph) (hc : s.context.Fits s.graph)
    (ho : s.context.oracle = .structural) (hx : Action.Run (.resolved free) ms s x ms') :
    Resolved free (x s).2.graph

/-- Resolved graphs are well formed, and everything in them is well typed. -/
theorem Resolved.invariant (h : g.Resolved free) : g.WellFormed ∧ g.WellTyped free := by
  have hstep : ∀ {g g' : Graph}, g.WellFormed ∧ g.WellTyped free → g.GrowsTyped free g' →
      g'.WellFormed ∧ g'.WellTyped free :=
    fun ih hgrow => ⟨hgrow.grows.wellFormed ih.1, ih.2.grows ih.1 hgrow⟩
  induction h with
  | initial symbols intPrecision =>
    exact ⟨wellFormed_initial symbols intPrecision,
      fun _ he => absurd (contains_iff.1 he) (Nat.not_lt_zero _)⟩
  | operation _ hx ih => exact hstep ih (hx.growsTyped ih.1)
  | run _ hc ho hx ih => exact hstep ih (hx.follows Course.typing.runs ⟨⟨ih.1, hc⟩, ho⟩).leads.2

/-- **Every expression of a resolved graph is well typed.** -/
theorem expr_typing_of_resolved (h : g.Resolved False) {e : ExprHandle}
    (he : g.contains e = true) : Typing False g (g.expr e).form (g.expr e).type :=
  h.invariant.2 e he

/-- The graph after a call was resolved outside of every template, with nothing bound. -/
def afterCall (g : Graph) (callee : ExprHandle) (args : List ExprHandle) : Graph :=
  (Action.call callee args (⟨g, .initial default .structural, ()⟩ : Session Unit)).2.graph

theorem Resolved.afterCall (h : g.Resolved free) {callee : ExprHandle} {args : List ExprHandle}
    (hc : g.contains callee = true) (ha : ∀ e ∈ args, g.contains e = true) :
    (g.afterCall callee args).Resolved free := by
  have hrun : Action.Run (.resolved free) [] (⟨g, .initial default .structural, ()⟩ : Session Unit)
      (Action.call callee args) [] := .call hc ha
  exact .run h (.initial _ (Oracle.fits_structural h.invariant.1)) rfl hrun

/-- The graph of a template `template<typename T> T f(T x)`, its declaration 4, of its name, the
expression 0, and of a literal, the expression 1. -/
def templateAndArgument : Graph :=
  let build : Build Unit := do
    let d ← Build.typeParam .globalName none
    if let .ok t ← (Build.typenameType d).run then
      let x ← Build.objectParam .globalName t
      if let .ok f ← (Build.functionDecl .globalName [x] t).run then
        let template ← Build.templateDecl [d] f none
        let _ ← (Build.templateReference template).run
        let _ ← Build.intLiteral 3
  (build (.initial .empty 32)).2

theorem templateAndArgument_resolved : templateAndArgument.Resolved False := by
  have hinitial : Resolved False (.initial .empty 32) := .initial .empty 32
  have hparam := hinitial.operation (x := Build.typeParam .globalName none)
    (.quiet (.typeParam rfl (by simp)) (.decl _ _))
  have htypename := hparam.operation
    (.quiet (.typenameType (d := ⟨1⟩) rfl) (Attempt.Quiet.typenameType _))
  have hobject := htypename.operation
    (.quiet (.objectParam (n := .globalName) (t := ⟨3⟩) rfl rfl) (.decl _ _))
  have hfunction := hobject.operation (x := (Build.functionDecl .globalName [⟨2⟩] ⟨3⟩).run)
    (.quiet (.functionDecl rfl (by simp; rfl) rfl) (Attempt.Quiet.functionDecl _ _ _))
  have htemplate := hfunction.operation (x := Build.templateDecl [⟨1⟩] ⟨3⟩ none)
    (.quiet (.templateDecl (by simp; rfl) rfl (by simp)) (.templateDecl _ _ _))
  exact (htemplate.operation (.templateReference (d := ⟨4⟩) rfl)).operation (.intLiteral 3)

/-- The graph after the template was called with the literal. -/
def resolvedTemplateCall : Graph := templateAndArgument.afterCall ⟨0⟩ [⟨1⟩]

theorem resolvedTemplateCall_resolved : resolvedTemplateCall.Resolved False :=
  templateAndArgument_resolved.afterCall rfl (by simp; rfl)

/-- The call has the type `int`, the return type of the specialization to `int`. -/
theorem expr_typing_of_resolvedTemplateCall :
    resolvedTemplateCall.Resolved False ∧
      resolvedTemplateCall.contains (⟨3⟩ : ExprHandle) = true ∧
      resolvedTemplateCall.expr ⟨3⟩ = ⟨.call ⟨0⟩ [⟨1⟩], ⟨6⟩⟩ ∧
      resolvedTemplateCall.type ⟨6⟩ = .int true 32 ∧
      Typing False resolvedTemplateCall (resolvedTemplateCall.expr ⟨3⟩).form
        (resolvedTemplateCall.expr ⟨3⟩).type := by
  have hc : resolvedTemplateCall.contains (⟨3⟩ : ExprHandle) = true := by decide +kernel
  exact ⟨resolvedTemplateCall_resolved, hc, by decide +kernel, by decide +kernel,
    expr_typing_of_resolved resolvedTemplateCall_resolved hc⟩

end Graph
end SemanticCore
