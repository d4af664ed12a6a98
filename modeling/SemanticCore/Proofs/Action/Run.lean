import SemanticCore.Action.Call
import SemanticCore.Action.Declaration
import SemanticCore.Proofs.Graph.Resolution

/-!
# Runs of client programs

A client of the semantic core is a program of its operations: it builds nodes, enters and leaves
frames, reports, tries one reading of a construct after another, and resolves constructs whose
bodies are programs of the same kind.  What it does next may depend on everything it has seen, so
such a program is not given by a text.  Instead `Action.Run` says of an action, started in a
session, that it is carried out by finitely many operations.

A client may keep marks and restore them later, while the frame is innermost in which they were
taken.  `Run r ms s x ms'` therefore has the marks that were taken in the frame before the action,
`ms`, and after it, `ms'`.  The body of a frame starts without any.

What the client is given is a parameter, `Rights`: the computations on the graph and the handles
that it may use, and whether it may take away what it did not add.
-/

set_option autoImplicit false
namespace SemanticCore

/-- What a client may use. -/
structure Rights where
  /-- The computations that may be run on a graph. -/
  build : {α : Type} → Graph → Build α → Prop
  /-- The handles that may be passed to an operation. -/
  handle : {c : Category} → Graph → Handle c → Prop
  /-- The queue may be flushed and truncated, and marks restored wherever they come from. -/
  cut : Prop

/-- The right to everything but cutting the context. -/
def Rights.uncut : Rights where
  build _ _ := True
  handle _ _ := True
  cut := False

/-- The failure is a broken precondition. -/
def Failure.isMisuse : Failure → Bool
  | misuse _ => true
  | _ => false

variable {ρ : Type}

/-- The session after its context changed. -/
def Session.enter (s : Session ρ) (k : Context → Context) : Session ρ :=
  { s with context := k s.context }

namespace Action

/-- Go on after a failure, which becomes the result.  There is no going on after a broken
precondition. -/
def observe {α : Type} (x : Action ρ α) : Action ρ (Except Failure α) := fun s =>
  match x s with
  | (.error (.misuse m), s) => (.error (.misuse m), s)
  | (result, s) => (.ok result, s)

section Observe

variable {α : Type} {x : Action ρ α} {s s' : Session ρ}

theorem observe_of_ok {a : α} (h : x s = (.ok a, s')) : observe x s = (.ok (.ok a), s') := by
  rw [observe, h]

theorem observe_of_misuse {m : Misuse} (h : x s = (.error (.misuse m), s')) :
    observe x s = (.error (.misuse m), s') := by
  rw [observe, h]

theorem observe_of_error {e : Failure} (h : x s = (.error e, s')) (he : e.isMisuse = false) :
    observe x s = (.ok (.error e), s') := by
  rw [observe, h]
  cases e with
  | misuse m => cases he
  | _ => rfl

/-- Going on after a failure changes nothing but the result. -/
theorem observe_session (x : Action ρ α) (s : Session ρ) : (observe x s).2 = (x s).2 := by
  rw [observe]
  split
  · next hx => rw [hx]
  · next hx => rw [hx]

end Observe

/-- Mark the context. -/
def mark : Action ρ Marks := do
  return (← context).marks

/-- A body begins in the session `s₁`: its frame was entered in `s`, and the parameters were
declared in the frame. -/
def Begins (enter : Context → Context) (params : List DeclHandle) (s s₁ : Session ρ) : Prop :=
  declareAll params (s.enter enter) = (.ok (), s₁)

/-- If a body succeeds, the handles in its result are handles that the client may use. -/
def Returns {α : Type} {c : Category} (r : Rights) (s : Session ρ) (body : Action ρ α)
    (handles : α → List (Handle c)) : Prop :=
  ∀ a s', body s = (.ok a, s') → ∀ h ∈ handles a, r.handle s'.graph h

/-- The action, started in the session `s` with the marks `ms`, is carried out by operations that
the client may use, and ends with the marks `ms'`. -/
inductive Run (r : Rights) :
    {α : Type} → List Marks → Session ρ → Action ρ α → List Marks → Prop
  | pure {α ms s} (a : α) : Run r ms s (pure a) ms
  | fail {α ms s e} (he : Failure.isMisuse e = false) : Run r ms s (throw e : Action ρ α) ms
  | bind {α β ms ms₁ ms₂ s s₁} {x : Action ρ α} {f : α → Action ρ β} {a : α}
    (hx : Run r ms s x ms₁) (ha : x s = (.ok a, s₁)) (hf : Run r ms₁ s₁ (f a) ms₂) :
    Run r ms s (x >>= f) ms₂
  | bindError {α β ms ms₁ s s₁ e} {x : Action ρ α} {f : α → Action ρ β}
    (hx : Run r ms s x ms₁) (he : x s = (.error e, s₁)) : Run r ms s (x >>= f) ms₁
  | observe {α ms ms₁ s} {x : Action ρ α} (hx : Run r ms s x ms₁) : Run r ms s (observe x) ms₁
  /-- Look at the session, and change the state that is the client's own. -/
  | client {α ms s} (k : Session ρ → α × ρ) :
    Run r ms s (modifyGet fun s => ((k s).1, { s with client := (k s).2 })) ms
  | build {α ms s} {x : Build α} (hx : r.build s.graph x) : Run r ms s (Action.build x) ms
  | bindName {ms s n d} (hd : r.handle s.graph d) :
    Run r ms s (modifyContext (·.bind n d)) ms
  | lookupLocal {ms s} (n : NameHandle) : Run r ms s (lookupLocal? n) ms
  | require {ms s e} (he : r.handle s.graph e) : Run r ms s (require e) ms
  | setLocation {ms s} (span : Span) : Run r ms s (modifyContext (·.setLocation span)) ms
  | warn {ms s} (d : Diagnostic) : Run r ms s (modifyContext (·.warn d)) ms
  | reportError {ms s} (d : Diagnostic) : Run r ms s (reportError d) ms
  | report {ms s} (e : SemanticError) : Run r ms s (report e) ms
  | flush {ms s} (hr : r.cut) : Run r ms s (modifyContext (·.flush.2)) ms
  | truncate {ms s} (n : Nat) (hr : r.cut) :
    Run r ms s (modifyContext fun c => { c with diagnostics := c.diagnostics.truncate n }) ms
  | mark {ms s} : Run r ms s mark (s.context.marks :: ms)
  | restore {ms s m} (hm : m ∈ ms ∨ r.cut) : Run r ms s (restore m) ms
  | trial {α ms ms₁ s} {body : Action ρ α} (hb : Run r ms s body ms₁) :
    Run r ms s (trial body) ms₁
  | withScope {α ms ms₁ s owner} {body : Action ρ α} (ho : r.handle s.graph owner)
    (hb : Run r [] (s.enter (·.pushScope owner)) body ms₁) : Run r ms s (withScope owner body) ms
  | withTemplate {α ms ms₁ s params constraint} {body : Action ρ α}
    (hc : ∀ e, constraint = some e → r.handle s.graph e)
    (hb : Run r [] (s.enter (·.pushTemplate params constraint)) body ms₁) :
    Run r ms s (withTemplate params constraint body) ms
  | withRequirements {α ms ms₁ s} {body : Action ρ α}
    (hb : Run r [] (s.enter (·.pushRequirements)) body ms₁) : Run r ms s (withRequirements body) ms
  | nameExpr {ms s} (n : NameHandle) : Run r ms s (nameExpr n) ms
  | call {ms s callee args} (hc : r.handle s.graph callee)
    (ha : ∀ e ∈ args, r.handle s.graph e) : Run r ms s (call callee args) ms
  | variableDecl {ms s n t written} (hn : r.handle s.graph n) (ht : r.handle s.graph t)
    (hw : ∀ i, written = some i → ∀ e ∈ InitSyntax.exprs i, r.handle s.graph e) :
    Run r ms s (variableDecl n t written) ms
  | functionDecl {ms s n params ret} (hn : r.handle s.graph n) (hr : r.handle s.graph ret) :
    Run r ms s (functionDecl n params ret) ms
  | classDecl {ms s n} (hn : r.handle s.graph n) : Run r ms s (classDecl n) ms
  | defineClass {ms s d members} (hd : r.handle s.graph d)
    (hm : ∀ m ∈ members, r.handle s.graph m) : Run r ms s (defineClass d members) ms
  | defineFunction {ms s f body} (ends : Session ρ → List Marks) (hf : r.handle s.graph f)
    (hb : ∀ t params defn s₁, (s.graph.decl f).form = .function t params defn →
      Begins (·.pushScope f) params s s₁ → Run r [] s₁ body (ends s₁))
    (hx : ∀ t params defn s₁, (s.graph.decl f).form = .function t params defn →
      Begins (·.pushScope f) params s s₁ → Returns r s₁ body fun stmt => [stmt]) :
    Run r ms s (defineFunction f body) ms
  | templateDecl {ms s params constraint pattern} (ends : Session ρ → List Marks)
    (hp : ∀ d ∈ params, r.handle s.graph d) (hc : ∀ e, constraint = some e → r.handle s.graph e)
    (hb : ∀ s₁, Begins (·.pushTemplate params constraint) params s s₁ →
      Run r [] s₁ pattern (ends s₁))
    (hx : ∀ s₁, Begins (·.pushTemplate params constraint) params s s₁ →
      Returns r s₁ pattern fun d => [d]) :
    Run r ms s (templateDecl params constraint pattern) ms
  | conceptDecl {ms s n params definition} (ends : Session ρ → List Marks)
    (hn : r.handle s.graph n) (hp : ∀ d ∈ params, r.handle s.graph d)
    (hb : ∀ s₁, Begins (·.pushTemplate params none) params s s₁ →
      Run r [] s₁ definition (ends s₁))
    (hx : ∀ s₁, Begins (·.pushTemplate params none) params s s₁ →
      Returns r s₁ definition fun e => [e]) :
    Run r ms s (conceptDecl n params definition) ms
  | requiresExpr {ms s tparams params reqs} (ends : Session ρ → List Marks)
    (ht : ∀ d ∈ tparams, r.handle s.graph d) (hp : ∀ d ∈ params, r.handle s.graph d)
    (hb : ∀ s₁, Begins (·.pushRequirements) params s s₁ → Run r [] s₁ reqs (ends s₁))
    (hx : ∀ s₁, Begins (·.pushRequirements) params s s₁ → Returns r s₁ reqs id) :
    Run r ms s (requiresExpr tparams params reqs) ms

end Action
end SemanticCore
