import SemanticCore.Proofs.Action.Proper
import SemanticCore.Proofs.Context.Requirement
import SemanticCore.Proofs.Context.Trial

/-!
# Every expression is required once

A client requires expressions inside a requires-expression, one after the other or by dependent
calls, enters further requires-expressions, gives up on trials and goes back to marks.  Whatever it
does and wherever it fails, no requires-expression gets to require two equivalent expressions.

Requiring is the only operation that adds to what is required.  All others at most cut it
(`Course.trimming`), but they add to the graph, and so whether expressions are equivalent has to be
answered anew after each step.  `Course.requiringOnce` is therefore the course of the actions that
add to the graph and keep `Context.RequiresOnce`.

* `Course.requiringOnce.runs` — **every operation keeps every expression required once**, and so
  does every run.
* `Session.Visited.requires_once` — so it is in every session that is visited, and there requiring
  an expression returns the one that stands for it.
-/

set_option autoImplicit false
namespace SemanticCore

open SemanticCore.Graph

variable {ρ α β : Type}

/-- In a frame that was just entered nothing more is required. -/
theorem Context.RequiresOnce.enter {g : Graph} {c : Context} (hc : c.RequiresOnce g) (f : Frame) :
    (f.enter c).RequiresOnce g := by
  cases f with
  | scope owner => exact hc.trim (.of_eq rfl)
  | template params constraint => exact hc.trim (.of_eq rfl)
  | requirements => exact hc.pushRequirements

theorem Action.require_eq (e : ExprHandle) (s : Session ρ) :
    require e s = (.ok (s.context.require s.graph e).1,
      { s with context := (s.context.require s.graph e).2 }) :=
  rfl

/-! ## Actions that require nothing -/

/-- Nothing is required afterwards that was not required before. -/
def Course.trimming : Course ρ where
  Holds _ := True
  Leads s s' := s.context.Trimmed s'.context
  Fails _ := True
  Names _ _ := True
  Completes _ := True
  refl _ := .refl _
  trans _ h h' := h.trans h'
  holds _ _ := trivial
  names _ _ := trivial

namespace Course.trimming

variable {s : Session ρ}

theorem build (x : Build α) :
    Course.trimming.Follows s (Action.build x) fun _ _ => True :=
  .build (.refl s.context) trivial

theorem attempt (x : Attempt SemanticError α) :
    Course.trimming.Follows s (Action.attempt x) fun _ _ => True :=
  .attempt trivial (.refl s.context) (fun _ _ => trivial) fun _ _ => trivial

theorem constrainedCall (callee : ExprHandle) (args : List ExprHandle) (recorded : ExprHandle) :
    Course.trimming.Follows s (Action.constrainedCall callee args recorded) fun _ _ => True := by
  refine .constrainedCall trivial trivial (fun _ => trivial) (fun _ _ => .refl s.context)
    (fun _ _ _ _ => trivial) fun _ _ => ?_
  exact .templateCall trivial (.of_error fun _ => trivial) (fun _ _ => attempt _)
    (fun {_ _ _ s₁ _} _ _ _ => .refl s₁.context) (fun s₁ _ _ => .refl s₁.context)
    fun _ _ _ _ => build _

theorem nameExpr (n : NameHandle) :
    Course.trimming.Follows s (Action.nameExpr n) fun _ _ => True :=
  .nameExpr trivial (fun _ => trivial) (fun _ => attempt _) (fun _ => attempt _) n

end Course.trimming

/-! ## Actions that keep expressions required once -/

/-- The graph grows, the frames stay, and if every expression was required once, every expression
is. -/
def Course.requiringOnce : Course ρ where
  Holds := Session.Fits
  Leads s s' := s.Leads s' ∧
    (s.context.RequiresOnce s.graph → s'.context.RequiresOnce s'.graph)
  Fails _ := True
  Names g x := g.contains x = true
  Completes _ := True
  refl _ := ⟨.refl _, id⟩
  trans _ h h' := ⟨h.1.trans h'.1, fun hc => h'.2 (h.2 hc)⟩
  holds hs h := h.1.fits hs
  names h hx := h.1.grows.contains hx

namespace Course.requiringOnce

variable {s : Session ρ} {x : Action ρ α} {Q : α → Graph → Prop}

/-- An action that requires nothing only has to add to the graph. -/
theorem of_trimmed (hs : s.Fits) (hx : Course.growing.Follows s x Q)
    (htrim : s.context.Trimmed (x s).2.context) : Course.requiringOnce.Follows s x Q where
  leads := by
    refine ⟨hx.leads, fun hc => ?_⟩
    exact (hc.extend hs.graph (hx.leads.fits hs).graph hx.leads.grows.extends).trim htrim
  result := hx.result
  fails := hx.fails

theorem of_build {x : Build α} (hs : s.Fits)
    (hx : Course.growing.Follows s (Action.build x) Q) :
    Course.requiringOnce.Follows s (Action.build x) Q :=
  of_trimmed hs hx (.refl _)

theorem of_construct {x : Attempt BuildError α} (hs : s.Fits)
    (hx : Course.growing.Follows s (Action.construct x) Q) :
    Course.requiringOnce.Follows s (Action.construct x) Q :=
  of_trimmed hs hx (Course.trimming.attempt _).leads

theorem restore (hs : s.Fits) (m : Marks) :
    Course.requiringOnce.Follows s (Action.restore m) fun _ _ => True := by
  have htrim : Course.trimming.Follows s (Action.restore m) fun _ _ => True :=
    .changeContext trivial (fun _ hc => .restore hc) fun _ _ => trivial
  exact of_trimmed hs (Course.growing.restore hs m) htrim.leads

theorem require (hs : s.Fits) {e : ExprHandle} (he : s.graph.contains e = true) :
    Course.requiringOnce.Follows s (Action.require e) fun _ _ => True where
  leads := ⟨(Course.growing.require hs e).leads, fun hc => hc.require he⟩
  result _ _ := trivial
  fails _ _ := trivial

/-- A dependent call inside a requires-expression is required. -/
theorem call (hs : s.Fits) {callee : ExprHandle} {args : List ExprHandle}
    (hc : s.graph.contains callee = true) (ha : ∀ e ∈ args, s.graph.contains e = true) :
    Course.requiringOnce.Follows s (Action.call callee args) fun _ _ => True := by
  have hresolved : Course.requiringOnce.Follows s (Action.attempt (.resolvedCall callee args))
      fun _ _ => True :=
    of_trimmed hs (Course.growing.resolvedCall hs hc ha) (Course.trimming.attempt _).leads
  refine .call (fun _ => .dependentCall (R := fun e g => g.contains e = true) hs
    (of_build hs (Course.growing.build Build.Makes.autoType)) (fun hleads ht => ?_)
    (fun hleads hr => require (hleads.1.fits hs) hr) (fun _ => trivial) fun hleads hr => ?_)
    fun _ => hresolved
  · exact of_build (hleads.1.fits hs) (Course.growing.build (Build.Makes.call ht
      (hleads.1.grows.contains hc) fun e he => hleads.1.grows.contains (ha e he)))
  · have hcall := Course.growing.constrainedCall (hleads.1.fits hs) (hleads.1.grows.contains hc)
      (fun e he => hleads.1.grows.contains (ha e he)) hr
    exact of_trimmed (hleads.1.fits hs) hcall (Course.trimming.constrainedCall _ _ _).leads

/-- Entering and leaving frames breaks up no list of what is required. -/
theorem frames : (Course.requiringOnce : Course ρ).Frames where
  enter {s f} hs hf := Course.growing.frames.enter hs (by cases f <;> exact hf)
  leave f hs h := by
    refine ⟨Course.growing.frames.leave f hs h.1, fun hc => (h.2 (hc.enter f)).trim ?_⟩
    cases f with
    | scope owner => exact .popScope _
    | template params constraint => exact .popTemplate _
    | requirements => exact .popRequirements _

theorem declares : (Course.requiringOnce : Course ρ).Declares where
  error _ := trivial
  stale := trivial
  bindName _ _ _ := ⟨⟨.refl _, rfl, rfl, rfl⟩, fun hc => hc.trim (.of_eq rfl)⟩
  restore hs hleads := restore (hleads.1.fits hs) _
  currentScope hs := Course.growing.declares.currentScope hs
  setContext hs hd ho := of_build hs (Course.growing.declares.setContext hs hd ho)
  setContexts hs hd ho := of_build hs (Course.growing.declares.setContexts hs hd ho)
  variableDecl hs hn ht := of_build hs (Course.growing.declares.variableDecl hs hn ht)
  initVariable hs hd ht hw := of_build hs (Course.growing.declares.initVariable hs hd ht hw)
  functionDecl hs hn hr := of_construct hs (Course.growing.declares.functionDecl hs hn hr)
  classDecl hs hn := of_build hs (Course.growing.declares.classDecl hs hn)
  classDefinition hs hm := of_build hs (Course.growing.declares.classDefinition hs hm)
  functionDefinition hs hx := of_build hs (Course.growing.declares.functionDefinition hs hx)
  define hs hd hx := of_construct hs (Course.growing.declares.define hs hd hx)
  templateDecl hs hp hd hc := of_build hs (Course.growing.declares.templateDecl hs hp hd hc)
  conceptOfExpr hs hn hp he := of_build hs (Course.growing.declares.conceptOfExpr hs hn hp he)
  requiresExpr hs ht hp hr := of_build hs (Course.growing.declares.requiresExpr hs ht hp hr)

/-- **Every operation keeps what is required required once.** -/
theorem runs : (Course.requiringOnce : Course ρ).Runs .all where
  toDeclares := declares
  toFrames := frames
  handle h := h
  completes _ := trivial
  fails _ := trivial
  build hs hx := (of_build hs (Course.growing.build_of_reaches hs hx)).leads
  client _ _ := ⟨⟨.refl _, .refl _⟩, id⟩
  aside _ h := ⟨⟨.refl _, h.toSameFrames⟩, fun hc => hc.trim (.of_eq h.requirements)⟩
  restoreMarks m hs := restore hs m
  require hs he := Course.requiringOnce.require hs he
  nameExpr n hs := of_trimmed hs (Course.growing.nameExpr hs n) (Course.trimming.nameExpr n).leads
  call hs hc ha := Course.requiringOnce.call hs hc ha

end Course.requiringOnce

/-! ## Sessions that are visited -/

/-- The sessions that a client gets to: at the start of a translation unit, after a run whether or
not it has failed, and in a frame in which parameters were declared, where the body that the frame
is entered for begins. -/
inductive Session.Visited : Session ρ → Prop
  | fresh (config : Config) (symbols : SymbolTable) (client : ρ) {oracle : Oracle}
    (ho : oracle.Fits (config.newGraph symbols)) :
    Visited ⟨config.newGraph symbols, .initial config oracle, client⟩
  | run {α : Type} {s : Session ρ} {x : Action ρ α} {ms ms' : List Marks} (h : Visited s)
    (hx : Action.Run .all ms s x ms') : Visited (x s).2
  | frame {s s₁ : Session ρ} (h : Visited s) {f : Frame} (hf : f.Fits s.graph)
    {params : List DeclHandle} (hbegins : Action.Begins f.enter params s s₁) : Visited s₁

namespace Session.Visited

variable {s : Session ρ}

theorem fits_requiresOnce (h : s.Visited) : s.Fits ∧ s.context.RequiresOnce s.graph := by
  induction h with
  | fresh config symbols client ho =>
    exact ⟨⟨wellFormed_initial _ _, .initial config ho⟩, .initial _ _ _⟩
  | run h hx ih =>
    have hleads := (hx.follows Course.requiringOnce.runs ih.1).leads
    exact ⟨hleads.1.fits ih.1, hleads.2 ih.2⟩
  | @frame s s₁ h f hf params hbegins ih =>
    have henter := ih.1.enter hf
    have hdeclared : Course.requiringOnce.Follows _ (Action.declareAll params) _ :=
      .declareAll Course.requiringOnce.declares (fun _ _ => trivial) henter
    have hleads := hdeclared.leads
    rw [hbegins] at hleads
    exact ⟨hleads.1.fits henter, hleads.2 (ih.2.enter f)⟩

/-- **In every session that is visited, every expression is required once.**  No two expressions
that one requires-expression requires are equivalent.  Requiring an expression returns an equivalent
one that the innermost requires-expression requires from then on; what the others require stays, and
what the innermost one requires stays exactly if an equivalent expression was among it. -/
theorem requires_once (h : s.Visited) :
    (∀ frame ∈ s.context.requirements, frame.Pairwise fun x y =>
      s.graph.equivalent x y = false ∧ s.graph.equivalent y x = false) ∧
    ∀ (e : ExprHandle) (required : List ExprHandle) (outer : List (List ExprHandle)),
      s.context.requirements = required :: outer →
        ∃ x required', Action.require e s =
            (.ok x, s.enter fun c => { c with requirements := required' :: outer }) ∧
          x ∈ required' ∧ s.graph.equivalent x e = true ∧
          (required' = required ↔ ∃ y ∈ required, s.graph.equivalent y e = true) := by
  obtain ⟨hfits, honce⟩ := h.fits_requiresOnce
  refine ⟨fun frame hframe => honce.pairwise hfits.graph hframe, fun e required outer hopen => ?_⟩
  obtain ⟨x, required', hrequire, hmem, hsame, hiff⟩ := Context.require_spec s.graph e hopen
  refine ⟨x, required', ?_, hmem, hsame, hiff⟩
  rw [Action.require_eq, hrequire]
  rfl

end Session.Visited

/-! ### Literals that are required in two frames -/

/-- Require an integer literal. -/
def Action.requireInt (value : Int) : Action Unit ExprHandle := do
  let e ← build (.intLiteral value)
  require e

/-- Require a literal, another one in a trial that fails, and the first one again. -/
def Action.requireInts : Action Unit ExprHandle := do
  let _ ← requireInt 1
  let given : Action Unit Unit := do
    let e ← requireInt 2
    throw (.error (.type (.notCallable e)))
  let _ ← observe (trial given)
  requireInt 1

/-- Inside a requires-expression that requires the literals, another one that requires the first
literal anew. -/
def Session.ofNestedRequirements : Session Unit :=
  let start := Session.mk (Config.newGraph default .empty) (.initial default .structural) ()
  let outer := (Action.requireInts (start.enter Frame.requirements.enter)).2
  (Action.requireInt 1 (outer.enter Frame.requirements.enter)).2

namespace Action.Run

variable {ms : List Marks}

/-- Whatever the first part does, the second goes on in a session that fits its graph. -/
theorem andThen {s : Session ρ} {x : Action ρ α} {f : α → Action ρ β} (hs : s.Fits)
    (hx : Run .all ms s x ms) (hf : ∀ a s₁, s₁.Fits → Run .all ms s₁ (f a) ms) :
    Run .all ms s (x >>= f) ms := by
  have hfits := (hx.leads hs).fits hs
  refine .seq hx fun a s₁ hrun => hf a s₁ ?_
  rwa [hrun] at hfits

variable {s : Session Unit}

theorem requireInt (hs : s.Fits) (value : Int) : Run .all ms s (Action.requireInt value) ms := by
  have hmakes : Course.growing.Follows s (Action.build (Build.intLiteral value))
      fun e g => g.contains e = true := Course.growing.build (Build.Makes.intLiteral hs.graph value)
  refine .seq (.build (.of_operation (.intLiteral value))) fun e s₁ hrun => .require ?_
  have he := hmakes.result e (congrArg Prod.fst hrun)
  rwa [hrun] at he

theorem requireInts (hs : s.Fits) : Run .all ms s Action.requireInts ms := by
  refine .andThen hs (.requireInt hs 1) fun _ s₁ hs₁ => ?_
  refine .andThen hs₁ (.observe (.trial ?_)) fun _ s₂ hs₂ => .requireInt hs₂ 1
  exact .andThen hs₁ (.requireInt hs₁ 2) fun _ _ _ => .fail rfl

end Action.Run

theorem Session.ofNestedRequirements_visited : Session.ofNestedRequirements.Visited := by
  have hframe : ∀ {s : Session Unit}, s.Visited → (s.enter Frame.requirements.enter).Visited :=
    fun h => h.frame (f := .requirements) trivial (rfl : Action.Begins _ [] _ _)
  have hrun : ∀ {x : Action Unit ExprHandle} {s : Session Unit}, s.Visited →
      Action.Run .all [] s x [] → (x s).2.Visited := fun h hx => h.run hx
  have hstart := hframe (.fresh default .empty () (Oracle.fits_structural (wellFormed_initial _ _)))
  have houter := hframe (hrun hstart (.requireInts hstart.fits_requiresOnce.1))
  exact hrun houter (.requireInt houter.fits_requiresOnce.1 1)

/-- What the trial required is not required any more, and each requires-expression has a literal of
its own.  In the inner one, requiring the literal of the outer one gives its own and changes
nothing, while the literal of the trial is required anew. -/
theorem Session.Visited.requires_once_nested :
    let s := Session.ofNestedRequirements
    s.Visited ∧ s.context.requirements = [[⟨3⟩], [⟨0⟩]] ∧
    (∀ frame ∈ s.context.requirements, frame.Pairwise fun x y =>
      s.graph.equivalent x y = false ∧ s.graph.equivalent y x = false) ∧
    Action.require ⟨0⟩ s = (.ok ⟨3⟩, s) ∧
    ∃ x required', Action.require ⟨1⟩ s =
        (.ok x, s.enter fun c => { c with requirements := [required', [⟨0⟩]] }) ∧
      x ∈ required' ∧ s.graph.equivalent x ⟨1⟩ = true ∧ required' ≠ [⟨3⟩] := by
  have hopen : Session.ofNestedRequirements.context.requirements = [[⟨3⟩], [⟨0⟩]] := by
    decide +kernel
  have hsame : Session.ofNestedRequirements.graph.equivalent ⟨3⟩ ⟨0⟩ = true := by decide +kernel
  have hother : Session.ofNestedRequirements.graph.equivalent ⟨3⟩ ⟨1⟩ = false := by decide +kernel
  obtain ⟨hpairwise, hrequire⟩ := Session.Visited.requires_once ofNestedRequirements_visited
  refine ⟨ofNestedRequirements_visited, hopen, hpairwise, ?_, ?_⟩
  · obtain ⟨x, required', hx, hmem, -, hiff⟩ := hrequire ⟨0⟩ [⟨3⟩] [[⟨0⟩]] hopen
    obtain rfl := hiff.2 ⟨⟨3⟩, List.mem_cons_self, hsame⟩
    rw [hx, List.mem_singleton.1 hmem, ← hopen]
    rfl
  · obtain ⟨x, required', hx, hmem, hequiv, hiff⟩ := hrequire ⟨1⟩ [⟨3⟩] [[⟨0⟩]] hopen
    refine ⟨x, required', hx, hmem, hequiv, fun hunchanged => ?_⟩
    obtain ⟨y, hy, hyequiv⟩ := hiff.1 hunchanged
    rw [List.mem_singleton.1 hy, hother] at hyequiv
    cases hyequiv

end SemanticCore
