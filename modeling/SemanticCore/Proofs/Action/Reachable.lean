import SemanticCore.Proofs.Action.Growth

/-!
# Reachable graphs

A graph is reachable if it comes from the graph of an empty translation unit by operations on the
graph and by runs of clients.  Neither of them is restricted in what it does, as long as it names
nodes that exist: a run may fail, be given up half-way, cut its context as it likes, and ask any
oracle that works by operations.

What a run does is told by what its operations do: `Action.Run.follows` says so for any course.

* `Action.Run.follows` — a run is on every course that its operations stay on.
* `Graph.Reachable.wellFormed` — every reachable graph is well formed.
* `Graph.Evolves` — what can become of a graph.
-/

set_option autoImplicit false
namespace SemanticCore

open SemanticCore.Graph

/-- A client may run any series of operations and name any node of the graph. -/
def Rights.all : Rights where
  build g x := g.Reaches (x g).2
  handle g h := g.contains h = true
  cut := True

variable {ρ α : Type}

/-! ## Runs on a course -/

/-- The contexts differ only in the place in the source, in what is bound and in what is queued. -/
structure Context.Aside (c c' : Context) : Prop extends c.SameFrames c' where
  requirements : c'.requirements = c.requirements

theorem Context.Aside.reportError {c c' : Context} {d : Diagnostic} (h : c.reportError d = .ok c') :
    c.Aside c' where
  toSameFrames := .reportError h
  requirements := by
    unfold Context.reportError at h
    split at h
    · cases h
      rfl
    · cases h

/-- Whatever a client with the given rights does, its operations stay on the course. -/
structure Course.Runs (C : Course ρ) (r : Rights) : Prop extends C.Declares, C.Frames where
  handle {c : Category} {g : Graph} {x : Handle c} : r.handle g x → C.Names g x
  completes (d : DeclHandle) : C.Completes d
  fails (e : Failure) : C.Fails e
  build {α : Type} {s : Session ρ} {x : Build α} : C.Holds s → r.build s.graph x →
    C.Leads s (s.built x)
  client {s : Session ρ} (client : ρ) : C.Holds s → C.Leads s { s with client }
  aside {s : Session ρ} {c : Context} : C.Holds s → s.context.Aside c →
    C.Leads s (s.enter fun _ => c)
  restoreMarks {s : Session ρ} (m : Marks) : C.Holds s →
    C.Follows s (Action.restore m) fun _ _ => True
  require {s : Session ρ} {e : ExprHandle} : C.Holds s → C.Names s.graph e →
    C.Follows s (Action.require e) fun _ _ => True
  nameExpr {s : Session ρ} (n : NameHandle) : C.Holds s →
    C.Follows s (Action.nameExpr n) fun _ _ => True
  call {s : Session ρ} {callee : ExprHandle} {args : List ExprHandle} : C.Holds s →
    C.Names s.graph callee → (∀ e ∈ args, C.Names s.graph e) →
      C.Follows s (Action.call callee args) fun _ _ => True

namespace Action

variable {C : Course ρ} {r : Rights}

/-- What a body returns may be referred to. -/
theorem Returns.follows (hC : C.Runs r) {c : Category} {s : Session ρ} {body : Action ρ α}
    {handles : α → List (Handle c)} (h : Returns r s body handles)
    (hb : C.Follows s body fun _ _ => True) :
    C.Follows s body fun a g => ∀ x ∈ handles a, C.Names g x :=
  { hb with result := fun a ha x hx => hC.handle (h a (body s).2 (Prod.ext ha rfl) x hx) }

/-- **A run is on every course that its operations stay on.** -/
theorem Run.follows (hC : C.Runs r) {ms ms' : List Marks} {s : Session ρ} {x : Action ρ α}
    (hrun : Run r ms s x ms') : C.Holds s → C.Follows s x fun _ _ => True := by
  have hcomplete : ∀ ds : List DeclHandle, ∀ d ∈ ds, C.Completes d := fun _ d _ => hC.completes d
  have hown : ∀ {g : Graph} {ds : List DeclHandle}, (∀ d ∈ ds, r.handle g d) →
      ∀ d ∈ ds, C.Owns d g := fun h d hd => ⟨hC.handle (h d hd), hC.completes d⟩
  have hreport : ∀ (d : Diagnostic) {s : Session ρ}, C.Holds s →
      C.Follows s (Action.reportError d) fun _ _ => True := fun d s hs =>
    .changeContext hs (fun c hc => hC.aside hs (.reportError hc)) fun m _ => hC.fails _
  induction hrun with
  | pure a => exact fun hs => .pure hs trivial
  | fail he => exact fun hs => .throw hs (hC.fails _)
  | bind hx ha hf ihx ihf =>
    refine fun hs => .bind hs (ihx hs) fun a' s' hs' _ _ ha' => ?_
    cases ha.symm.trans ha'
    exact ihf hs'
  | bindError hx he ihx =>
    refine fun hs => .bind hs (ihx hs) fun a' s' _ _ _ ha' => ?_
    cases he.symm.trans ha'
  | observe hx ihx => exact fun hs => .observe (ihx hs)
  | client k => exact fun hs => ⟨hC.client _ hs, fun _ _ => trivial, by rintro _ ⟨⟩⟩
  | build hx => exact fun hs => .build (hC.build hs hx) trivial
  | bindName hd => exact fun hs => .modifyContext (hC.bindName _ _ hs)
  | lookupLocal n => exact fun hs => .lookupLocal? hs hC.stale n
  | require he => exact fun hs => hC.require hs (hC.handle he)
  | setLocation span => exact fun hs => .modifyContext (hC.aside hs ⟨⟨rfl, rfl, rfl⟩, rfl⟩)
  | warn d => exact fun hs => .modifyContext (hC.aside hs ⟨⟨rfl, rfl, rfl⟩, rfl⟩)
  | reportError d => exact hreport d
  | report e => exact fun hs => .context_bind (hreport _ hs)
  | flush hr => exact fun hs => .modifyContext (hC.aside hs ⟨⟨rfl, rfl, rfl⟩, rfl⟩)
  | truncate n hr => exact fun hs => .modifyContext (hC.aside hs ⟨⟨rfl, rfl, rfl⟩, rfl⟩)
  | mark => exact fun hs => .context_bind (.pure hs trivial)
  | restore hm => exact fun hs => hC.restoreMarks _ hs
  | trial hb ihb => exact fun hs => .trial hs (ihb hs) fun _ hs' _ => hC.restoreMarks _ hs'
  | @withScope _ _ _ _ owner _ ho hb ihb =>
    exact fun hs => .within (f := .scope owner) hC.toFrames hs
      (ihb (hC.enter (f := .scope owner) hs (hC.handle ho)))
  | @withTemplate _ _ _ _ params constraint _ hc hb ihb =>
    exact fun hs => .within (f := .template params constraint) hC.toFrames hs
      (ihb (hC.enter (f := .template params constraint) hs fun e he => hC.handle (hc e he)))
  | withRequirements hb ihb =>
    exact fun hs => .within (f := .requirements) hC.toFrames hs
      (ihb (hC.enter (f := .requirements) hs trivial))
  | nameExpr n => exact fun hs => hC.nameExpr n hs
  | call hc ha => exact fun hs => hC.call hs (hC.handle hc) fun e he => hC.handle (ha e he)
  | variableDecl hn ht hw =>
    exact fun hs => .variableDecl hC.toDeclares hs (hC.handle hn) (hC.handle ht)
      fun i hi e he => hC.handle (hw i hi e he)
  | functionDecl hn ht =>
    exact fun hs =>
      .functionDecl hC.toDeclares hs (hC.handle hn) (hC.handle ht) (hcomplete _)
  | classDecl hn => exact fun hs => .classDecl hC.toDeclares hs (hC.handle hn)
  | defineClass hd hm =>
    exact fun hs => .defineClass hC.toDeclares hs ⟨hC.handle hd, hC.completes _⟩ (hown hm)
  | @defineFunction _ _ f _ ends hf hb hx ihb =>
    refine fun hs => .defineFunction hC.toDeclares hs (hC.completes f)
      fun {t params defn} hform => ?_
    refine .framed hC.toDeclares hC.toFrames hs (f := .scope f) (hC.handle hf) (hcomplete _)
      fun s₁ hs₁ hholds => ?_
    exact ((hx t params defn s₁ hform hs₁).follows hC (ihb t params defn s₁ hform hs₁ hholds)).mono
      fun _ _ h => h _ List.mem_cons_self
  | @templateDecl _ _ params constraint _ ends hp hc hb hx ihb =>
    have hc' : ∀ e, constraint = some e → C.Names _ e := fun e he => hC.handle (hc e he)
    refine fun hs => .templateDecl hC.toDeclares hs (hown hp) hc' ?_
    refine .framed hC.toDeclares hC.toFrames hs (f := .template params constraint) hc' (hcomplete _)
      fun s₁ hs₁ hholds => ?_
    exact ((hx s₁ hs₁).follows hC (ihb s₁ hs₁ hholds)).mono
      fun d _ h => ⟨h d List.mem_cons_self, hC.completes d⟩
  | @conceptDecl _ _ _ params _ ends hn hp hb hx ihb =>
    refine fun hs => .conceptDecl hC.toDeclares hs (hC.handle hn) (hown hp) ?_
    refine .framed hC.toDeclares hC.toFrames hs (f := .template params none) nofun (hcomplete _)
      fun s₁ hs₁ hholds => ?_
    exact ((hx s₁ hs₁).follows hC (ihb s₁ hs₁ hholds)).mono fun _ _ h => h _ List.mem_cons_self
  | requiresExpr ends ht hp hb hx ihb =>
    refine fun hs => .requiresExpr hC.toDeclares hs (fun d hd => hC.handle (ht d hd))
      (fun d hd => hC.handle (hp d hd)) ?_
    exact .framed hC.toDeclares hC.toFrames hs (f := .requirements) trivial (hcomplete _)
      fun s₁ hs₁ hholds => (hx s₁ hs₁).follows hC (ihb s₁ hs₁ hholds)

end Action

/-- Operations add to the graph, and every operation leaves the frames that it enters. -/
theorem Course.growing.runs : (Course.growing : Course ρ).Runs .all where
  toDeclares := declares
  toFrames := frames
  handle h := h
  completes _ := trivial
  fails _ := trivial
  build hs hx := (build_of_reaches hs hx).leads
  client _ _ := ⟨.refl _, .refl _⟩
  aside _ h := ⟨.refl _, h.toSameFrames⟩
  restoreMarks m hs := restore hs m
  require hs _ := Course.growing.require hs _
  nameExpr n hs := Course.growing.nameExpr hs n
  call hs hc ha := Course.growing.call hs hc ha

/-- **A run adds to the graph and leaves the frames that it enters.** -/
theorem Action.Run.leads {ms ms' : List Marks} {s : Session ρ} {x : Action ρ α}
    (hrun : Run .all ms s x ms') (hs : s.Fits) : s.Leads (x s).2 :=
  (hrun.follows Course.growing.runs hs).leads

/-- The graph comes from that of an empty translation unit by operations and runs. -/
inductive Graph.Reachable : Graph → Prop
  | initial (symbols : SymbolTable) (intPrecision : UInt16) :
    Reachable (.initial symbols intPrecision)
  | operation {α : Type} {g : Graph} {x : Build α} (hg : Reachable g) (hx : Operation g x) :
    Reachable (x g).2
  | run {ρ α : Type} {s : Session ρ} {x : Action ρ α} {ms ms' : List Marks}
    (hg : Reachable s.graph) (hc : s.context.Fits s.graph) (hx : Action.Run .all ms s x ms') :
    Reachable (x s).2.graph

/-- Whatever a client does with an empty translation unit and the oracle that answers by structure,
the graph is reachable. -/
theorem Graph.Reachable.of_run {ρ α : Type} (symbols : SymbolTable) (intPrecision : UInt16)
    (config : Config) (client : ρ) {x : Action ρ α} {ms : List Marks}
    (hx : Action.Run .all []
      ⟨.initial symbols intPrecision, .initial config .structural, client⟩ x ms) :
    Reachable
      (x ⟨.initial symbols intPrecision, .initial config .structural, client⟩).2.graph :=
  have horacle := Oracle.fits_structural (wellFormed_initial symbols intPrecision)
  .run (.initial symbols intPrecision) (.initial config horacle) hx

/-- **Every reachable graph has grown out of that of an empty translation unit.** -/
theorem Graph.Reachable.grows {g : Graph} (h : g.Reachable) :
    ∃ symbols intPrecision, (Graph.initial symbols intPrecision).Grows g := by
  induction h with
  | initial symbols intPrecision => exact ⟨symbols, intPrecision, .refl _⟩
  | operation _ hx ih =>
    obtain ⟨symbols, intPrecision, ih⟩ := ih
    have hg := ih.wellFormed (wellFormed_initial symbols intPrecision)
    exact ⟨symbols, intPrecision, ih.trans (hx.grows hg)⟩
  | run _ hc hx ih =>
    obtain ⟨symbols, intPrecision, ih⟩ := ih
    have hg := ih.wellFormed (wellFormed_initial symbols intPrecision)
    exact ⟨symbols, intPrecision, ih.trans (hx.leads ⟨hg, hc⟩).grows⟩

/-- **Every reachable graph is well formed.** -/
theorem Graph.Reachable.wellFormed {g : Graph} (h : g.Reachable) : g.WellFormed := by
  obtain ⟨symbols, intPrecision, hgrow⟩ := h.grows
  exact hgrow.wellFormed (wellFormed_initial symbols intPrecision)

/-- The second graph comes from the first by operations and runs. -/
inductive Graph.Evolves (g : Graph) : Graph → Prop
  | refl : Evolves g g
  | operation {α : Type} {g' : Graph} {x : Build α} (h : Evolves g g') (hx : Operation g' x) :
    Evolves g (x g').2
  | run {ρ α : Type} {s : Session ρ} {x : Action ρ α} {ms ms' : List Marks}
    (h : Evolves g s.graph) (hc : s.context.Fits s.graph) (hx : Action.Run .all ms s x ms') :
    Evolves g (x s).2.graph

/-- **Whatever becomes of a graph, it only grows.** -/
theorem Graph.Evolves.grows {g g' : Graph} (hg : g.WellFormed) (h : g.Evolves g') :
    g.Grows g' := by
  induction h with
  | refl => exact .refl g
  | operation _ hx ih => exact ih.trans (hx.grows (ih.wellFormed hg))
  | run _ hc hx ih => exact ih.trans (hx.leads ⟨ih.wellFormed hg, hc⟩).grows

end SemanticCore
