import SemanticCore.Constraint.Admission
import SemanticCore.Proofs.Constraint.Entailment
import SemanticCore.Proofs.Graph.Resolution
import SemanticCore.Proofs.Template.Specialization

/-!
# Operations on the graph

These are the computations that a client of the graph may run: it names nodes only by handles that
it was given, so the handles that it passes are those of nodes that exist.  Constructions that are
not supported are left out, since they fail and leave the graph as it is.

`Operation.grows` is the reason why every graph that a client can reach is well formed: whatever
an operation does to a well-formed graph is a series of additions.
-/

set_option autoImplicit false
namespace SemanticCore

open SemanticCore.Graph

/-- An operation of a client that knows nodes of the graph only. -/
inductive Operation (g : Graph) : {α : Type} → Build α → Prop
  -- symbols and names
  | symbol (s : String) : Operation g (Build.symbol s)
  | identifier (s : String) : Operation g (Build.identifier s)
  | placeholderName : Operation g Build.placeholderName
  | templateName {d args} (hd : g.contains d = true) (ha : ∀ a ∈ args, Term.Fits g a) :
    Operation g (Build.templateName d args).run
  | conceptName {d args} (hd : g.contains d = true) (ha : ∀ a ∈ args, Term.Fits g a) :
    Operation g (Build.conceptName d args).run
  | qualifiedName {scope n} (hs : g.contains scope = true) (hn : g.contains n = true) :
    Operation g (Build.qualifiedName scope n)
  -- types
  | intTypeOf (signed : Bool) (precision : UInt16) : Operation g (Build.intTypeOf signed precision)
  | intType : Operation g Build.intType
  | uintType : Operation g Build.uintType
  | autoType : Operation g Build.autoType
  | declautoType : Operation g Build.declautoType
  | functionTypeOf {params ret} (hp : ∀ t ∈ params, g.contains t = true)
    (hr : g.contains ret = true) : Operation g (Build.functionTypeOf params ret)
  | functionType {params ret} (hp : ∀ d ∈ params, g.contains d = true)
    (hr : g.contains ret = true) : Operation g (Build.functionType params ret).run
  | qualifiedType {t} (quals : Qualifiers) (ht : g.contains t = true) :
    Operation g (Build.qualifiedType t quals)
  | pointerType {t} (ht : g.contains t = true) : Operation g (Build.pointerType t)
  | referenceType {t} (ht : g.contains t = true) : Operation g (Build.referenceType t)
  | sequenceType {t} (ht : g.contains t = true) : Operation g (Build.sequenceType t)
  | classType {d} (hd : g.contains d = true) : Operation g (Build.classType d).run
  | typenameType {d} (hd : g.contains d = true) : Operation g (Build.typenameType d).run
  | archetypeType {d} (hd : g.contains d = true) : Operation g (Build.archetypeType d)
  -- expressions
  | boolLiteral (value : Bool) : Operation g (Build.boolLiteral value)
  | integerLiteral {t} (value : Int) (ht : g.contains t = true) :
    Operation g (Build.integerLiteral t value)
  | intLiteral (value : Int) : Operation g (Build.intLiteral value)
  | uintLiteral (value : Int) : Operation g (Build.uintLiteral value)
  | referenceTo {d} (hd : g.contains d = true) : Operation g (Build.referenceTo d).run
  | templateReference {d} (hd : g.contains d = true) : Operation g (Build.templateReference d).run
  | conceptCheck {d args} (hd : g.contains d = true) (ha : ∀ a ∈ args, Term.Fits g a) :
    Operation g (Build.conceptCheck d args).run
  | synthesizedValue {d} (hd : g.contains d = true) : Operation g (Build.synthesizedValue d).run
  | binary {t lhs rhs} (op : BinaryOp) (ht : g.contains t = true) (hl : g.contains lhs = true)
    (hr : g.contains rhs = true) : Operation g (Build.binary op t lhs rhs)
  | negation {t e} (ht : g.contains t = true) (he : g.contains e = true) :
    Operation g (Build.negation t e)
  | call {t callee args} (ht : g.contains t = true) (hc : g.contains callee = true)
    (ha : ∀ e ∈ args, g.contains e = true) : Operation g (Build.call t callee args)
  | callTo {t d args} (ht : g.contains t = true) (hd : g.contains d = true)
    (ha : ∀ e ∈ args, g.contains e = true) : Operation g (Build.callTo t d args).run
  | conversion {t e} (kind : ConversionKind) (ht : g.contains t = true)
    (he : g.contains e = true) : Operation g (Build.conversion kind t e)
  | requiresExpr {tparams params reqs} (ht : ∀ d ∈ tparams, g.contains d = true)
    (hp : ∀ d ∈ params, g.contains d = true) (hr : ∀ r ∈ reqs, g.contains r = true) :
    Operation g (Build.requiresExpr tparams params reqs)
  -- declarations
  | namespaceDecl {n} (hn : g.contains n = true) : Operation g (Build.namespaceDecl n)
  | variableDecl {n t init} (hn : g.contains n = true) (ht : g.contains t = true)
    (hi : ∀ i, init = some i → g.contains i = true) : Operation g (Build.variableDecl n t init)
  | functionDecl {n params ret} (hn : g.contains n = true) (hp : ∀ d ∈ params, g.contains d = true)
    (hr : g.contains ret = true) : Operation g (Build.functionDecl n params ret).run
  | classDecl {n} (hn : g.contains n = true) : Operation g (Build.classDecl n)
  | templateDecl {params pattern constraint} (hp : ∀ d ∈ params, g.contains d = true)
    (hd : g.contains pattern = true) (hc : ∀ e, constraint = some e → g.contains e = true) :
    Operation g (Build.templateDecl params pattern constraint)
  | conceptDecl {n params definition} (hn : g.contains n = true)
    (hp : ∀ d ∈ params, g.contains d = true) (hd : ∀ x, definition = some x → g.contains x = true) :
    Operation g (Build.conceptDecl n params definition)
  | conceptOfExpr {n params e} (hn : g.contains n = true) (hp : ∀ d ∈ params, g.contains d = true)
    (he : g.contains e = true) : Operation g (Build.conceptOfExpr n params e)
  | objectParam {n t} (hn : g.contains n = true) (ht : g.contains t = true) :
    Operation g (Build.objectParam n t)
  | valueParam {n t} (hn : g.contains n = true) (ht : g.contains t = true) :
    Operation g (Build.valueParam n t)
  | typeParam {n default} (hn : g.contains n = true)
    (ht : ∀ t, default = some t → g.contains t = true) : Operation g (Build.typeParam n default)
  | setContext {d c} (hd : g.contains d = true) (hc : g.contains c = true) :
    Operation g (Build.setContext d c)
  | define {d x} (hd : g.contains d = true) (hx : g.contains x = true) :
    Operation g (Build.define d x).run
  | setInitializer {d i} (hd : g.contains d = true) (hi : g.contains i = true) :
    Operation g (Build.setInitializer d i).run
  -- statements, definitions, initializers and requirements, each of whatever form
  | stmt {f} (hf : StmtForm.Fits g f) : Operation g (Build.stmt f)
  | defn {f} (hf : DefForm.Fits g f) : Operation g (Build.defn f)
  | init {f t} (ht : g.contains t = true) (hf : InitForm.Fits g f) : Operation g (Build.init f t)
  | req {f} (hf : ReqForm.Fits g f) : Operation g (Build.req f)
  -- constraints
  | conceptConstraint {d args} (hd : g.contains d = true) (ha : ∀ a ∈ args, Term.Fits g a) :
    Operation g (Build.conceptConstraint d args).run
  | predicate {e} (he : g.contains e = true) : Operation g (Build.predicate e)
  | conjunction {l r} (hl : g.contains l = true) (hr : g.contains r = true) :
    Operation g (Build.conjunction l r)
  | disjunction {l r} (hl : g.contains l = true) (hr : g.contains r = true) :
    Operation g (Build.disjunction l r)
  | normalize {e} (he : g.contains e = true) : Operation g (Build.normalize e)
  | subsumes {p q} (hp : g.contains p = true) (hq : g.contains q = true) :
    Operation g (Build.subsumes p q)
  | admission {c e} (hc : g.contains c = true) (he : g.contains e = true) :
    Operation g (Build.admission? c e)
  -- conversions and operators
  | valueOf {e} (he : g.contains e = true) : Operation g (Build.valueOf e)
  | convert {e t} (he : g.contains e = true) (ht : g.contains t = true) :
    Operation g (Build.convert e t).run
  | deferConversion {e t} (he : g.contains e = true) (ht : g.contains t = true) :
    Operation g (Build.deferConversion e t)
  | convertToBool {e} (he : g.contains e = true) : Operation g (Build.convertToBool e).run
  | commonType {a b} (ha : g.contains a = true) (hb : g.contains b = true) :
    Operation g (Build.commonType? a b)
  | logical {l r} (op : BinaryOp) (hl : g.contains l = true) (hr : g.contains r = true) :
    Operation g (Build.logical op l r).run
  | logicalNot {e} (he : g.contains e = true) : Operation g (Build.logicalNot e).run
  | comparison {l r} (op : BinaryOp) (hl : g.contains l = true) (hr : g.contains r = true) :
    Operation g (Build.comparison op l r).run
  | arithmetic {l r} (op : BinaryOp) (hl : g.contains l = true) (hr : g.contains r = true) :
    Operation g (Build.arithmetic op l r).run
  -- initialization, where `initFrom` is by copy, directly or from a list
  | initZero {t} (ht : g.contains t = true) : Operation g (Build.initZero t).run
  | initDefault {t} (ht : g.contains t = true) : Operation g (Build.initDefault t).run
  | initValue {t} (ht : g.contains t = true) : Operation g (Build.initValue t).run
  | initReference {t e} (ht : g.contains t = true) (he : g.contains e = true) :
    Operation g (Build.initReference t e).run
  | initFrom {t written} (ht : g.contains t = true)
    (hw : ∀ e ∈ InitSyntax.exprs written, g.contains e = true) :
    Operation g (Build.initFrom t written).run
  -- templates
  | substitute {s t} (hs : Substitution.Fits g s) (ht : g.contains t = true) :
    Operation g (Build.substitute s t)
  | deduce {tparams params args} (ht : ∀ d ∈ tparams, g.contains d = true)
    (hp : ∀ d ∈ params, g.contains d = true) (ha : ∀ e ∈ args, g.contains e = true) :
    Operation g (Build.deduce tparams params args).run
  | specialize {template s} (hd : g.contains template = true) (hs : Substitution.Fits g s) :
    Operation g (Build.specialize template s).run

variable {α : Type} {g : Graph} {x : Build α}

theorem Build.Yields.subsumes (hg : g.WellFormed) {p q : ExprHandle} (hp : g.contains p = true)
    (hq : g.contains q = true) : Build.Yields g (Build.subsumes p q) fun _ _ => True :=
  .bind hg (.normalize hg hp) fun _ _ hgrow hg₁ _ =>
    .bind hg₁ (.normalize hg₁ (hgrow.contains hq)) fun _ _ _ _ _ => .get_bind (.pure trivial)

theorem Build.Yields.admission? (hg : g.WellFormed) {c : ExprHandle} (e : ExprHandle)
    (hc : g.contains c = true) : Build.Yields g (Build.admission? c e) fun _ _ => True :=
  .bind hg (.normalize hg hc) fun _ _ _ _ _ => .get_bind (.pure trivial)

/-- **An operation adds to a well-formed graph.** -/
theorem Operation.grows (hg : g.WellFormed) (h : Operation g x) : g.Grows (x g).2 := by
  have hformula : ∀ c : ConsHandle, g.contains c = true → g.States (g.consFormula c) c :=
    fun c hc => ⟨hc, fun _ => Iff.rfl⟩
  cases h with
  | symbol s => exact (Build.Yields.symbol s).1
  | identifier s => exact (Build.Makes.identifier hg s).1
  | placeholderName => exact Build.Makes.placeholderName.1
  | templateName hd ha => exact (Attempt.Makes.templateName ha).1
  | conceptName hd ha => exact (Attempt.Makes.conceptName ha).1
  | qualifiedName hs hn => exact (Build.Makes.name (f := .qualified _ _) ⟨hs, hn⟩).1
  | intTypeOf signed precision => exact (Build.Makes.intTypeOf signed precision).1
  | intType => exact Build.Makes.intType.1
  | uintType => exact Build.Makes.uintType.1
  | autoType => exact Build.Makes.autoType.1
  | declautoType => exact Build.Makes.declautoType.1
  | functionTypeOf hp hr => exact (Build.Makes.functionTypeOf hp hr).1
  | functionType hp hr => exact (Attempt.Makes.functionType hg hr).1
  | qualifiedType quals ht => exact (Build.Makes.qualifiedType hg quals ht).1
  | pointerType ht => exact (Build.Makes.type (f := .pointer _) ht).1
  | referenceType ht => exact (Build.Makes.type (f := .reference _) ht).1
  | sequenceType ht => exact (Build.Makes.type (f := .sequence _) ht).1
  | classType hd => exact (Attempt.Makes.classType _).1
  | typenameType hd => exact (Attempt.Makes.typenameType _).1
  | archetypeType hd => exact (Build.Makes.type (f := .archetype _) hd).1
  | boolLiteral value => exact (Build.Makes.boolLiteral hg value).1
  | integerLiteral value ht => exact (Build.Makes.integerLiteral value ht).1
  | intLiteral value => exact (Build.Makes.intLiteral hg value).1
  | uintLiteral value => exact (Build.Makes.uintLiteral hg value).1
  | referenceTo hd => exact (Attempt.Makes.referenceTo hg _).1
  | templateReference hd => exact (Attempt.Makes.templateReference hg _).1
  | conceptCheck hd ha => exact (Attempt.Makes.conceptCheck hg ha).1
  | synthesizedValue hd => exact (Attempt.Makes.synthesizedValue hg _).1
  | binary op ht hl hr => exact (Build.Makes.binary op ht hl hr).1
  | negation ht he => exact (Build.Makes.negation ht he).1
  | call ht hc ha => exact (Build.Makes.call ht hc ha).1
  | callTo ht hd ha => exact (Attempt.Makes.callTo hg ht ha).1
  | conversion kind ht he => exact (Build.Makes.conversion kind ht he).1
  | requiresExpr ht hp hr => exact (Build.Makes.requiresExpr hg ht hp hr).1
  | namespaceDecl hn => exact (Build.Makes.decl hn (f := .ofNamespace) trivial).1
  | variableDecl hn ht hi => exact (Build.Makes.variableDecl hn ht hi).1
  | functionDecl hn hp hr => exact (Attempt.Makes.functionDecl hg hn hr).1
  | classDecl hn => exact (Build.Makes.classDecl hn).1
  | templateDecl hp hd hc => exact (Build.Makes.templateDecl hg hp hd hc).1
  | conceptDecl hn hp hd => exact (Build.Makes.conceptDecl hn hp hd).1
  | conceptOfExpr hn hp he => exact (Build.Makes.conceptOfExpr hg hn hp he).1
  | objectParam hn ht => exact (Build.Makes.objectParam hn ht).1
  | valueParam hn ht => exact (Build.Makes.decl hn (f := .valueParam _) ht).1
  | typeParam hn ht => exact (Build.Makes.decl hn (f := .typeParam _) ht).1
  | setContext hd hc => exact (Build.Yields.setContext _ hc).1
  | define hd hx => exact (Attempt.Yields.define _ hx).1
  | setInitializer hd hi => exact (Attempt.Yields.setInitializer _ hi).1
  | stmt hf => exact (Build.Yields.stmt hf).1
  | defn hf => exact (Build.Yields.defn hf).1
  | init ht hf => exact (Build.Yields.init ⟨ht, hf⟩).1
  | req hf => exact (Build.Yields.req hf).1
  | conceptConstraint hd ha => exact (Attempt.Makes.conceptConstraint ha).1
  | predicate he => exact (Build.Yields.predicate hg he).1
  | conjunction hl hr => exact (Build.Yields.conjunction hg (hformula _ hl) (hformula _ hr)).1
  | disjunction hl hr => exact (Build.Yields.disjunction hg (hformula _ hl) (hformula _ hr)).1
  | normalize he => exact (Build.Yields.normalize hg he).1
  | subsumes hp hq => exact (Build.Yields.subsumes hg hp hq).1
  | admission hc he => exact (Build.Yields.admission? hg _ hc).1
  | valueOf he => exact (Build.Makes.valueOf hg he).1
  | convert he ht => exact (Attempt.Makes.convert hg he ht).1
  | deferConversion he ht => exact (Build.Makes.deferConversion he ht).1
  | convertToBool he => exact (Attempt.Makes.convertToBool hg he).1
  | commonType ha hb => exact (Build.Yields.commonType? hg ha hb).1
  | logical op hl hr => exact (Attempt.Makes.logical hg op hl hr).1
  | logicalNot he => exact (Attempt.Makes.logicalNot hg he).1
  | comparison op hl hr => exact (Attempt.Makes.comparison hg op hl hr).1
  | arithmetic op hl hr => exact (Attempt.Makes.arithmetic hg op hl hr).1
  | initZero ht => exact (Attempt.Makes.initZero hg ht).1
  | initDefault ht => exact (Attempt.Makes.initDefault ht).1
  | initValue ht => exact (Attempt.Makes.initValue hg ht).1
  | initReference ht he => exact (Attempt.Makes.initReference ht he).1
  | initFrom ht hw => exact (Attempt.Makes.initFrom hg ht hw).1
  | substitute hs ht => exact (Build.Makes.substitute hg hs ht).1
  | deduce ht hp ha => exact (hg.yields_deduce _ _ ha).1
  | specialize hd hs => exact (Attempt.Makes.specialize hg _ hs).1

namespace Graph

/-- One operation leads from a graph to the other. -/
def Step (g g' : Graph) : Prop :=
  ∃ (α : Type) (x : Build α), Operation g x ∧ g' = (x g).2

/-- Operations lead from a graph to the other. -/
def Reaches (g g' : Graph) : Prop :=
  Relation.ReflTransGen Step g g'

theorem Reaches.of_operation (h : Operation g x) : g.Reaches (x g).2 :=
  Relation.ReflTransGen.single ⟨_, x, h, rfl⟩

theorem Reaches.grows {g' : Graph} (hg : g.WellFormed) (h : g.Reaches g') : g.Grows g' := by
  induction h with
  | refl => exact .refl g
  | tail _ hstep ih =>
    obtain ⟨_, x, hx, rfl⟩ := hstep
    exact ih.trans (hx.grows (ih.wellFormed hg))

end Graph
end SemanticCore
