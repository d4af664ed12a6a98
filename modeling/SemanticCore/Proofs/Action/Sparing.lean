import SemanticCore.Proofs.Action.Reachable
import SemanticCore.Proofs.Graph.Sparing

/-!
# What a trial leaves behind

A trial that fails puts the context back, but not the graph: what was built stays.  Whether anything
that was there before has changed is decided by the actions that complete a declaration.  Most of
them complete declarations that they have just built; but a class or a function that is defined, the
members of a class, the parameters of a function, template or concept and the pattern of a template
are handed to them by the client.

`Action.Program P s x` says that `x`, started in the session `s`, is a program of semantic actions,
and that `P` holds of every declaration that it hands to an action which completes it.

* `Action.Program.spares` — a program spares every declaration of which `P` does not hold.
* `Action.trial_spares` — so does a trial, whether or not it fails.  If `P` holds of no declaration
  that was there, nothing that was there refers to what the trial has built.
* `Action.failed_trial_completes_class` — a class that a failed trial was given stays defined.
-/

set_option autoImplicit false
namespace SemanticCore

open SemanticCore.Graph

/-! ## Nodes out of reach -/

namespace Graph

/-- The node that the handle names in the graph `g'` refers only to nodes that are in `g`. -/
def RefersInto (g' g : Graph) : {c : Category} → Handle c → Prop
  | .name, n => (g'.name n).Fits g
  | .type, t => (g'.type t).Fits g
  | .expr, e => (g'.expr e).Fits g
  | .decl, d => (g'.decl d).Fits g
  | .stmt, s => (g'.stmt s).Fits g
  | .defn, d => (g'.defn d).Fits g
  | .init, i => (g'.init i).Fits g
  | .cons, k => (g'.cons k).Fits g
  | .req, r => (g'.req r).Fits g

/-- If a well-formed graph grew and no declaration changed, what was added is out of reach: no node
that was there refers to it. -/
theorem WellFormed.refersInto {g g' : Graph} (hg : g.WellFormed) (h : g.Extends g')
    (hdecls : ∀ d : DeclHandle, g.contains d = true → g'.decl d = g.decl d) {c : Category}
    (x : Handle c) (hx : g.contains x = true) : g'.RefersInto g x := by
  have hplaced := hg.placed x hx
  cases c with
  | name => rw [RefersInto, h.name hx]; exact hplaced.1
  | type => rw [RefersInto, h.type hx]; exact hplaced.1
  | expr => rw [RefersInto, h.expr hx]; exact hplaced.1
  | decl => rw [RefersInto, hdecls x hx]; exact hplaced
  | stmt => rw [RefersInto, h.stmt hx]; exact hplaced
  | defn => rw [RefersInto, h.defn hx]; exact hplaced
  | init => rw [RefersInto, h.init hx]; exact hplaced
  | cons => rw [RefersInto, h.cons hx]; exact hplaced.1
  | req => rw [RefersInto, h.req hx]; exact hplaced

end Graph

/-- Only the variable itself is initialized. -/
theorem Attempt.Spares.initVariable {d x : DeclHandle} (hx : x ≠ d) (t : TypeHandle)
    (written : Option InitSyntax) :
    Attempt.Spares d (Build.initVariable x t written) fun _ => True := by
  have hset : ∀ i, Attempt.Spares d (Build.setInitializer x i) fun _ => True :=
    fun i g _ => ⟨spares_setInitializer hx i, fun _ _ => trivial⟩
  cases written with
  | none =>
    exact .bind (.of_within (.initDefault (frame_spares d).toFrame t)) fun i _ => (hset i).adapt
  | some i =>
    exact .bind (.of_within (.initFrom (frame_spares d) t i)) fun i _ => (hset i).adapt

/-! ## Oracles that spare a declaration -/

/-- Whatever the oracle is asked, it spares the declaration. -/
structure Oracle.Spares (d : DeclHandle) (o : Oracle) : Prop where
  deduce : ∀ tparams params args, Attempt.Spares d (o.deduce tparams params args) fun _ => True
  specialize : ∀ template s, Attempt.Spares d (o.specialize template s) fun _ => True
  subsumes : ∀ p q, Build.Spares d (o.subsumes p q) fun _ => True
  admission : ∀ c e, Build.Spares d (o.admission? c e) fun _ => True

namespace Oracle.Spares

variable {d : DeclHandle}

/-- The oracle that answers by structure completes only what it has built. -/
theorem structural : Oracle.structural.Spares d where
  deduce _ _ _ := .of_within (.deduce (frame_spares d).toFrame _ _ _)
  specialize _ _ := .specialize _ _
  subsumes _ _ := .of_within (.subsumes (frame_spares d).toFrame _ _)
  admission _ _ := .of_within (.admission? (frame_spares d).toFrame _ _)

theorem resolve {o : Oracle} (ho : o.Spares d) (template : DeclHandle)
    (tparams params : List DeclHandle) (args : List ExprHandle) :
    Attempt.Spares d (o.resolve template tparams params args) fun _ => True :=
  .bind (.adapt (ho.deduce tparams params args)) fun s _ => .adapt (ho.specialize template s)

end Oracle.Spares

/-! ## Sessions -/

variable {ρ α β : Type} {d : DeclHandle}

/-- The declaration is in the graph, and the oracle spares it. -/
structure Session.Guards (d : DeclHandle) (s : Session ρ) : Prop where
  contains : s.graph.contains d = true
  oracle : s.context.oracle.Spares d

/-- The declaration is what it was, and the oracle is the same. -/
structure Session.Spares (d : DeclHandle) (s s' : Session ρ) : Prop where
  graph : s.graph.Spares d s'.graph
  oracle : s'.context.oracle = s.context.oracle

namespace Session.Spares

variable {s s' s'' : Session ρ}

/-- A session with the same graph and the same oracle. -/
theorem of_eq (hgraph : s'.graph = s.graph) (horacle : s'.context.oracle = s.context.oracle) :
    s.Spares d s' :=
  ⟨hgraph ▸ (frame_spares d).refl _, horacle⟩

theorem trans (h : s.Spares d s') (h' : s'.Spares d s'') : s.Spares d s'' :=
  ⟨(frame_spares d).trans h.graph h'.graph, h'.oracle.trans h.oracle⟩

theorem guards (h : s.Spares d s') (hs : s.Guards d) : s'.Guards d :=
  ⟨h.graph.contains hs.contains, h.oracle ▸ hs.oracle⟩

end Session.Spares

namespace Frame

variable (f : Frame) (c : Context)

theorem oracle_enter : (f.enter c).oracle = c.oracle := by
  cases f <;> rfl

theorem oracle_leave : (f.leave c).oracle = c.oracle := by
  have hpop : ∀ c : Context, c.popScope.oracle = c.oracle := fun c => by
    unfold Context.popScope
    split <;> rfl
  cases f with
  | scope owner => exact hpop c
  | template params constraint => exact hpop _
  | requirements => exact hpop _

end Frame

/-! ## The course of the actions that spare a declaration -/

/-- The declaration stays what it is.  No declaration but another one may be completed. -/
def Course.sparing (d : DeclHandle) : Course ρ where
  Holds := Session.Guards d
  Leads := Session.Spares d
  Fails _ := True
  Names _ _ := True
  Completes x := x ≠ d
  refl _ := .of_eq rfl rfl
  trans _ h h' := h.trans h'
  holds hs h := h.guards hs
  names _ _ := trivial

namespace Course.sparing

variable {s : Session ρ} {P : α → Prop} {Q : α → Graph → Prop}

theorem build (hs : s.Guards d) {y : Build α} (hy : Build.Spares d y P) (hQ : ∀ a g, P a → Q a g) :
    (Course.sparing d).Follows s (Action.build y) Q :=
  have h := hy s.graph hs.contains
  .build ⟨h.1, rfl⟩ (hQ _ _ h.2)

theorem attempt (hs : s.Guards d) {y : Attempt SemanticError α} (hy : Attempt.Spares d y P)
    (hQ : ∀ a g, P a → Q a g) : (Course.sparing d).Follows s (Action.attempt y) Q :=
  have h := hy s.graph hs.contains
  .attempt hs ⟨h.1, rfl⟩ (fun a ha => hQ a _ (h.2 a ha)) fun _ _ => trivial

theorem construct (hs : s.Guards d) {y : Attempt BuildError α} (hy : Attempt.Spares d y P)
    (hQ : ∀ a g, P a → Q a g) : (Course.sparing d).Follows s (Action.construct y) Q :=
  attempt hs hy.adapt hQ

/-- What only adds nodes spares every declaration. -/
theorem build_within (hs : s.Guards d) {y : Build α} (hy : Build.Within (Graph.Spares d) y) :
    (Course.sparing d).Follows s (Action.build y) fun _ _ => True :=
  build hs (.of_within hy) fun _ _ _ => trivial

theorem changeContext (hs : s.Guards d) {k : Context → Except Misuse Context}
    (hk : ∀ c, k s.context = .ok c → c.oracle = s.context.oracle) :
    (Course.sparing d).Follows s (Action.changeContext k) fun _ _ => True :=
  .changeContext hs (fun c hc => .of_eq rfl (hk c hc)) fun _ _ => trivial

theorem restore (hs : s.Guards d) (m : Marks) :
    (Course.sparing d).Follows s (Action.restore m) fun _ _ => True :=
  changeContext hs fun _ hc => (Context.SameFrames.restore hc).oracle

theorem require (hs : s.Guards d) (e : ExprHandle) :
    (Course.sparing d).Follows s (Action.require e) fun _ _ => True := by
  refine .context_bind (.graph_bind ?_)
  exact .bind hs (.modifyContext (.of_eq rfl (Context.SameFrames.require _ s.graph e).oracle))
    fun _ _ hs' _ _ _ => .pure hs' trivial

theorem frames : (Course.sparing d : Course ρ).Frames where
  enter {s f} hs _ := ⟨hs.contains, f.oracle_enter s.context ▸ hs.oracle⟩
  leave f _ h := ⟨h.graph, (f.oracle_leave _).trans (h.oracle.trans (f.oracle_enter _))⟩

theorem declares : (Course.sparing d : Course ρ).Declares where
  error _ := trivial
  stale := trivial
  bindName _ _ _ := .of_eq rfl rfl
  restore hs h := restore (h.guards hs) _
  currentScope _ := trivial
  setContext hs hx _ := build hs (.setContext hx _) fun _ _ _ => trivial
  setContexts hs hx _ := build hs (.setContexts hx _) fun _ _ _ => trivial
  variableDecl hs _ _ := build hs (.decl _ _) fun _ _ hx => ⟨trivial, hx⟩
  initVariable hs hx _ _ :=
    have hrun : Build.Spares d (Build.initVariable _ _ _).run fun r => ∀ a, r = .ok a → True :=
      Attempt.Spares.initVariable hx _ _
    build hs hrun fun _ _ _ => trivial
  functionDecl hs _ _ := construct hs (.functionDecl _ _ _) fun _ _ hx => ⟨trivial, hx⟩
  classDecl hs _ := build hs (.decl _ _) fun _ _ hx => ⟨trivial, hx⟩
  classDefinition hs _ := build_within hs fun g => (frame_spares d).defn _ g
  functionDefinition hs _ := build_within hs fun g => (frame_spares d).defn _ g
  define hs hx _ :=
    construct (P := fun _ => True) hs (fun _ _ => ⟨spares_define hx _, fun _ _ => trivial⟩)
      fun _ _ _ => trivial
  templateDecl hs _ _ _ := build hs (.templateDecl _ _ _) fun _ _ hx => ⟨trivial, hx⟩
  conceptOfExpr hs _ _ _ := build hs (.conceptOfExpr _ _ _) fun _ _ hx => ⟨trivial, hx⟩
  requiresExpr hs _ _ _ := build_within hs fun g => (frame_spares d).expr _ _ g

theorem nameExpr (hs : s.Guards d) (n : NameHandle) :
    (Course.sparing d).Follows s (Action.nameExpr n) fun _ _ => True :=
  .nameExpr hs (fun _ => trivial)
    (fun x => construct hs (.of_within (.referenceTo (frame_spares d) x)) fun _ _ _ => trivial)
    (fun x => construct hs (.of_within (.templateReference (frame_spares d) x))
      fun _ _ _ => trivial) n

/-- The arguments of a call are not completed, nor is anything else that it refers to. -/
theorem call (hs : s.Guards d) (callee : ExprHandle) (args : List ExprHandle) :
    (Course.sparing d).Follows s (Action.call callee args) fun _ _ => True := by
  have hresolved : Attempt.Within (Graph.Spares d) (Build.resolvedCall callee args) := by
    refine .get_bind fun g => ?_
    split
    · exact .throw (frame_spares d).toFrame _
    · exact .guarded (frame_spares d).toFrame _ (.lift ((frame_spares d).expr _ _))
  have hrecord : ∀ {s' : Session ρ} (t : TypeHandle), s'.Guards d →
      (Course.sparing d).Follows s' (Action.build (.call t callee args)) fun _ _ => True :=
    fun t hs' => build_within hs' fun g => (frame_spares d).expr _ _ g
  refine .call (fun _ => .dependentCall hs (build_within hs (.autoType (frame_spares d).toFrame))
    (fun h _ => hrecord _ (h.guards hs)) (fun h _ => require (h.guards hs) _) (fun _ => trivial)
    fun h _ => ?_) fun _ => attempt hs (.of_within hresolved) fun _ _ _ => trivial
  have hs₂ := h.guards hs
  refine .constrainedCall hs₂ trivial (fun _ => trivial)
    (fun _ _ => ⟨(hs₂.oracle.admission _ _ _ hs₂.contains).1, rfl⟩) (fun _ _ _ _ => trivial)
    fun _ h₃ => ?_
  have hs₃ := h₃.guards hs₂
  exact .templateCall hs₃ (.of_error fun _ => trivial)
    (fun _ _ => attempt hs₃ (hs₃.oracle.resolve _ _ _ _).adapt fun _ _ _ => trivial)
    (fun _ h₄ _ => ⟨((h₄.guards hs₃).oracle.subsumes _ _ _ (h₄.guards hs₃).contains).1, rfl⟩)
    (fun _ _ _ => .of_eq rfl rfl) fun _ _ h₄ h₅ => hrecord _ (h₅.guards (h₄.guards hs₃))

end Course.sparing

namespace Action

/-! ## Programs -/

/-- The action, started in the session, is a program of semantic actions and of operations on the
graph.  `P` holds of the declarations that it hands to actions which place or define them. -/
inductive Program (P : DeclHandle → Prop) : {α : Type} → Session ρ → Action ρ α → Prop
  /-- Whatever has no part in the graph: reading it, changing the context, giving up. -/
  | aside {α s} {x : Action ρ α} (hgraph : (x s).2.graph = s.graph)
    (horacle : (x s).2.context.oracle = s.context.oracle) : Program P s x
  | bind {α β s} {x : Action ρ α} {f : α → Action ρ β} (hx : Program P s x)
    (hf : ∀ a s', x s = (.ok a, s') → Program P s' (f a)) : Program P s (x >>= f)
  | observe {α s} {x : Action ρ α} (hx : Program P s x) : Program P s (observe x)
  | trial {α s} {x : Action ρ α} (hx : Program P s x) : Program P s (trial x)
  | build {α s} {x : Build α} (hx : Operation s.graph x) (hcompletes : ∀ d, ¬ x.Completes d) :
    Program P s (build x)
  | withScope {α s owner} {x : Action ρ α} (hx : Program P (s.enter (·.pushScope owner)) x) :
    Program P s (withScope owner x)
  | withTemplate {α s params constraint} {x : Action ρ α}
    (hx : Program P (s.enter (·.pushTemplate params constraint)) x) :
    Program P s (withTemplate params constraint x)
  | withRequirements {α s} {x : Action ρ α} (hx : Program P (s.enter (·.pushRequirements)) x) :
    Program P s (withRequirements x)
  | nameExpr {s} (n : NameHandle) : Program P s (nameExpr n)
  | call {s} (callee : ExprHandle) (args : List ExprHandle) : Program P s (call callee args)
  | variableDecl {s} (n : NameHandle) (t : TypeHandle) (written : Option InitSyntax) :
    Program P s (variableDecl n t written)
  | classDecl {s} (n : NameHandle) : Program P s (classDecl n)
  | functionDecl {s} (n : NameHandle) {params} (ret : TypeHandle) (hp : ∀ p ∈ params, P p) :
    Program P s (functionDecl n params ret)
  | defineClass {s d members} (hd : P d) (hm : ∀ m ∈ members, P m) :
    Program P s (defineClass d members)
  | defineFunction {s f body} (hf : P f)
    (hp : ∀ t params defn, (s.graph.decl f).form = .function t params defn → ∀ p ∈ params, P p)
    (hb : ∀ t params defn s₁, (s.graph.decl f).form = .function t params defn →
      Begins (·.pushScope f) params s s₁ → Program P s₁ body) :
    Program P s (defineFunction f body)
  | templateDecl {s params constraint pattern} (hp : ∀ p ∈ params, P p)
    (hb : ∀ s₁, Begins (·.pushTemplate params constraint) params s s₁ → Program P s₁ pattern)
    (hx : ∀ s₁ d s₂, Begins (·.pushTemplate params constraint) params s s₁ →
      pattern s₁ = (.ok d, s₂) → P d) :
    Program P s (templateDecl params constraint pattern)
  | conceptDecl {s} (n : NameHandle) {params definition} (hp : ∀ p ∈ params, P p)
    (hb : ∀ s₁, Begins (·.pushTemplate params none) params s s₁ → Program P s₁ definition) :
    Program P s (conceptDecl n params definition)
  | requiresExpr {s} (tparams : List DeclHandle) {params reqs} (hp : ∀ p ∈ params, P p)
    (hb : ∀ s₁, Begins (·.pushRequirements) params s s₁ → Program P s₁ reqs) :
    Program P s (requiresExpr tparams params reqs)

namespace Program

variable {P : DeclHandle → Prop} {s : Session ρ} {x : Action ρ α}

/-- **A program spares the declarations that it hands to no completing action.** -/
theorem spares (h : Program P s x) (hP : ¬ P d) (hs : s.Guards d) :
    (Course.sparing d).Follows s x fun _ _ => True := by
  have hne : ∀ {y : DeclHandle}, P y → y ≠ d := by
    rintro y hy rfl
    exact hP hy
  have hnes : ∀ {ys : List DeclHandle}, (∀ y ∈ ys, P y) → ∀ y ∈ ys, y ≠ d :=
    fun hys y hy => hne (hys y hy)
  have howns : ∀ {g : Graph} {ys : List DeclHandle}, (∀ y ∈ ys, P y) →
      ∀ y ∈ ys, (Course.sparing d : Course ρ).Owns y g :=
    fun hys y hy => ⟨trivial, hne (hys y hy)⟩
  have henters : ∀ {s : Session ρ} (f : Frame), (Course.sparing d : Course ρ).Enters s.graph f := by
    rintro s (_ | _ | _)
    · trivial
    · exact fun _ _ => trivial
    · trivial
  induction h with
  | aside hgraph horacle =>
    exact ⟨.of_eq hgraph horacle, fun _ _ => trivial, fun _ _ => trivial⟩
  | bind hx hf ihx ihf => exact .bind hs (ihx hs) fun a s₁ hs₁ _ _ ha => ihf a s₁ ha hs₁
  | observe hx ih => exact .observe (ih hs)
  | trial hx ih => exact .trial hs (ih hs) fun _ hs' _ => Course.sparing.restore hs' _
  | build hx hcompletes => exact .build ⟨hx.spares (hcompletes d) hs.contains, rfl⟩ trivial
  | @withScope _ _ owner _ hx ih =>
    exact .within (f := .scope owner) Course.sparing.frames hs (ih ⟨hs.contains, hs.oracle⟩)
  | @withTemplate _ _ params constraint _ hx ih =>
    exact .within (f := .template params constraint) Course.sparing.frames hs
      (ih ⟨hs.contains, hs.oracle⟩)
  | withRequirements hx ih =>
    exact .within (f := .requirements) Course.sparing.frames hs (ih ⟨hs.contains, hs.oracle⟩)
  | nameExpr n => exact Course.sparing.nameExpr hs n
  | call callee args => exact Course.sparing.call hs callee args
  | variableDecl n t written =>
    exact .variableDecl Course.sparing.declares hs trivial trivial fun _ _ _ _ => trivial
  | classDecl n => exact .classDecl Course.sparing.declares hs trivial
  | functionDecl n ret hp =>
    exact .functionDecl Course.sparing.declares hs trivial trivial (hnes hp)
  | defineClass hd hm =>
    exact .defineClass Course.sparing.declares hs ⟨trivial, hne hd⟩ (howns hm)
  | @defineFunction _ f _ hf hp hb ih =>
    refine .defineFunction Course.sparing.declares hs (hne hf) fun {t params defn} hform => ?_
    refine .mono (.framed Course.sparing.declares Course.sparing.frames hs (f := .scope f)
      (henters _) (hnes (hp t params defn hform))
      fun s₁ hbegins hs₁ => ih t params defn s₁ hform hbegins hs₁) fun _ _ _ => trivial
  | @templateDecl _ params constraint pattern hp hb hx ih =>
    refine .templateDecl Course.sparing.declares hs (howns hp) (fun _ _ => trivial) ?_
    refine .framed Course.sparing.declares Course.sparing.frames hs
      (f := .template params constraint) (henters _) (hnes hp) fun s₁ hbegins hs₁ => ?_
    have hbody := ih s₁ hbegins hs₁
    refine { hbody with result := fun y hy => ⟨trivial, hne ?_⟩ }
    exact hx s₁ y _ hbegins (Prod.ext hy rfl)
  | @conceptDecl _ n params _ hp hb ih =>
    refine .conceptDecl Course.sparing.declares hs trivial (howns hp) ?_
    exact .framed Course.sparing.declares Course.sparing.frames hs (f := .template params none)
      (henters _) (hnes hp) ih
  | @requiresExpr _ tparams params _ hp hb ih =>
    refine .requiresExpr Course.sparing.declares hs (fun _ _ => trivial) (fun _ _ => trivial) ?_
    refine .mono (.framed Course.sparing.declares Course.sparing.frames hs (f := .requirements)
      (henters _) (hnes hp) ih) fun _ _ _ _ _ => trivial

end Program

/-! ## Trials -/

variable {P : DeclHandle → Prop} {s : Session ρ} {body : Action ρ α}

/-- **A trial spares the declarations that its body hands to no completing action**, whether or not
it fails.  If these are all the declarations that were there, then nothing that was there refers to
what the trial has built. -/
theorem trial_spares (hg : s.graph.WellFormed) (horacle : ∀ d, s.context.oracle.Spares d)
    (hbody : Program P s body) :
    (∀ d : DeclHandle, s.graph.contains d = true → ¬ P d →
      (trial body s).2.graph.decl d = s.graph.decl d) ∧
    ((∀ d : DeclHandle, s.graph.contains d = true → ¬ P d) →
      ∀ {c : Category} (x : Handle c), s.graph.contains x = true →
        (trial body s).2.graph.RefersInto s.graph x) := by
  have hspares : ∀ d : DeclHandle, s.graph.contains d = true → ¬ P d →
      s.graph.Spares d (trial body s).2.graph :=
    fun d hd hP => (hbody.trial.spares hP ⟨hd, horacle d⟩).leads.graph
  have hdecl : ∀ d : DeclHandle, s.graph.contains d = true → ¬ P d →
      (trial body s).2.graph.decl d = s.graph.decl d :=
    fun d hd hP => (hspares d hd hP).decl hd
  refine ⟨hdecl, fun hnone c x hx => ?_⟩
  have hglobal := hg.globalNamespace
  exact hg.refersInto (hspares _ hglobal (hnone _ hglobal)).grown
    (fun d hd => hdecl d hd (hnone d hd)) x hx

/-- A session in which the declaration 1 is a class without a definition. -/
def classSession : Session Unit where
  graph := (Build.classDecl .globalName (.initial .empty 32)).2
  context := .initial default .structural
  client := ()

theorem classSession_wellFormed : classSession.graph.WellFormed :=
  ((Reachable.initial .empty 32).operation (x := Build.classDecl .globalName)
    (.classDecl rfl)).wellFormed

/-- Declare and define another class, and then use its name as an expression. -/
def newClassBody : Action Unit ExprHandle := do
  let d ← classDecl .globalName
  defineClass d []
  nameExpr .globalName

/-- The class that the body defines was not there before. -/
theorem newClassBody_program :
    Program (fun d => classSession.graph.contains d = false) classSession newClassBody := by
  refine .bind (.classDecl _) fun d s₁ hd => ?_
  have hnew : classSession.graph.contains d = false := by
    have hclass : (classDecl .globalName classSession).1 = .ok ⟨2⟩ := rfl
    rw [hd] at hclass
    cases hclass
    rfl
  exact .bind (.defineClass hnew (by simp)) fun _ s₂ _ => .nameExpr _

theorem trial_spares_newClass :
    classSession.graph.WellFormed ∧ (∀ d, classSession.context.oracle.Spares d) ∧
    Program (fun d => classSession.graph.contains d = false) classSession newClassBody ∧
    (trial newClassBody classSession).1 = .error (.error (.type (.notAValue ⟨2⟩))) ∧
    (∀ d : DeclHandle, classSession.graph.contains d = true →
      (trial newClassBody classSession).2.graph.decl d = classSession.graph.decl d) ∧
    ∀ {c : Category} (x : Handle c), classSession.graph.contains x = true →
      (trial newClassBody classSession).2.graph.RefersInto classSession.graph x := by
  have hold : ∀ d : DeclHandle, classSession.graph.contains d = true →
      ¬ classSession.graph.contains d = false := by
    intro d hd
    simp [hd]
  obtain ⟨hdecl, hrefers⟩ :=
    trial_spares classSession_wellFormed (fun _ => .structural) newClassBody_program
  exact ⟨classSession_wellFormed, fun _ => .structural, newClassBody_program, rfl,
    fun d hd => hdecl d hd (hold d hd), hrefers hold⟩

/-- Define the class of the session, and then use a name that is not declared. -/
def oldClassBody : Action Unit ExprHandle := do
  defineClass ⟨1⟩ []
  nameExpr .globalName

/-- The trial fails in a way that can be recovered from, and the class is defined all the same.  To
define it again is an error. -/
theorem failed_trial_completes_class :
    Program (fun _ => True) classSession oldClassBody ∧
    (trial oldClassBody classSession).1 = .error (.error (.type (.undeclaredName "Global"))) ∧
    (Failure.error (.type (.undeclaredName "Global"))).isRecoverable = true ∧
    classSession.graph.contains (⟨1⟩ : DeclHandle) = true ∧
    (classSession.graph.decl ⟨1⟩).form = .ofClass none ∧
    ((trial oldClassBody classSession).2.graph.decl ⟨1⟩).form = .ofClass (some ⟨0⟩) ∧
    (defineClass ⟨1⟩ [] (trial oldClassBody classSession).2).1 =
      .error (.error (.type (.redefinition ⟨1⟩))) := by
  refine ⟨?_, rfl, rfl, rfl, rfl, rfl, rfl⟩
  exact .bind (.defineClass trivial (by simp)) fun _ s₁ _ => .nameExpr _

end Action
end SemanticCore
