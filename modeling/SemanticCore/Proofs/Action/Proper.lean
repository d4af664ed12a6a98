import SemanticCore.Proofs.Action.Program
import SemanticCore.Proofs.Action.Reachable

/-!
# Programs that name what exists

A client holds the handles that it was given, and what it binds it binds by declaring it.
`ClientProgram.Proper` says so of a program and the session that it is started in: as far as the
program gets, every handle that it passes to an operation is that of a node which exists by then,
what it builds it builds by operations on the graph, and it leaves binding to the declaring actions.

What a program does next may depend on what it was answered, so the condition follows the run: the
second part of a program is proper in the session that the first one has ended in, and the body of a
construct in the session that the body begins in.

* `ClientProgram.grows` — **a proper program adds to the graph, and leaves the frames that it
  enters.**
-/

set_option autoImplicit false
namespace SemanticCore

open SemanticCore.Graph

variable {α : Type}

/-- The nodes that an open frame is resolved with are in the graph. -/
def Frame.Fits (g : Graph) : Frame → Prop
  | scope owner => g.contains owner = true
  | template _ constraint => ∀ e, constraint = some e → g.contains e = true
  | requirements => True

/-- The session, for a body that has marks of its own. -/
def Session.unmarked (s : Session (List Marks)) : Session (List Marks) :=
  { s with client := [] }

/-- As far as the program gets, it names nodes that exist, adds to the graph by operations, and does
not bind names by itself. -/
def ClientProgram.Proper : {α : Type} → ClientProgram α → Session (List Marks) → Prop
  | _, pure _, _ | _, fail _, _ | _, abandon, _ | _, look, _ | _, changeQueue _, _
  | _, reportError _, _ | _, setLocation _, _ | _, currentScope, _ | _, depth, _ | _, lookup _, _
  | _, lookupLocal _, _ | _, mark, _ | _, restore _, _ | _, nameExpr _, _ => True
  | _, bind p f, s => p.Proper s ∧ ∀ a s', p.run s = (.ok a, s') → (f a).Proper s'
  | _, observe p, s => p.Proper s
  | _, trial p, s => p.Proper s
  | _, build x, s => s.graph.Reaches (x s.graph).2
  | _, bindName _ _, _ => False
  | _, require e, s => s.graph.contains e = true
  | _, within f p, s => f.Fits s.graph ∧ p.Proper (s.enter f.enter).unmarked
  | _, call callee args, s =>
    s.graph.contains callee = true ∧ ∀ e ∈ args, s.graph.contains e = true
  | _, variableDecl n t written, s => s.graph.contains n = true ∧ s.graph.contains t = true ∧
    ∀ i, written = some i → ∀ e ∈ i.exprs, s.graph.contains e = true
  | _, functionDecl n _ ret, s => s.graph.contains n = true ∧ s.graph.contains ret = true
  | _, classDecl n, s => s.graph.contains n = true
  | _, defineFunction f body, s => s.graph.contains f = true ∧
    ∀ t params defn s₁, (s.graph.decl f).form = .function t params defn →
      Action.Begins (·.pushScope f) params s s₁ →
        body.Proper s₁.unmarked ∧ Action.Returns .all s₁ (Action.ownMarks body.run) fun x => [x]
  | _, templateDecl params constraint pattern, s => (∀ d ∈ params, s.graph.contains d = true) ∧
    (∀ e, constraint = some e → s.graph.contains e = true) ∧
    ∀ s₁, Action.Begins (·.pushTemplate params constraint) params s s₁ →
      pattern.Proper s₁.unmarked ∧ Action.Returns .all s₁ (Action.ownMarks pattern.run) fun d => [d]
  | _, conceptDecl n params definition, s => s.graph.contains n = true ∧
    (∀ d ∈ params, s.graph.contains d = true) ∧
    ∀ s₁, Action.Begins (·.pushTemplate params none) params s s₁ →
      definition.Proper s₁.unmarked ∧
        Action.Returns .all s₁ (Action.ownMarks definition.run) fun e => [e]
  | _, requiresExpr tparams params reqs, s => (∀ d ∈ tparams, s.graph.contains d = true) ∧
    (∀ d ∈ params, s.graph.contains d = true) ∧
    ∀ s₁, Action.Begins (·.pushRequirements) params s s₁ →
      reqs.Proper s₁.unmarked ∧ Action.Returns .all s₁ (Action.ownMarks reqs.run) id

/-! ## Fitting -/

theorem Session.Fits.unmarked {s : Session (List Marks)} (hs : s.Fits) : s.unmarked.Fits :=
  ⟨hs.graph, hs.context⟩

theorem Frame.Fits.enters {ρ : Type} {g : Graph} {f : Frame} (h : f.Fits g) :
    (Course.growing : Course ρ).Enters g f := by
  cases f with
  | scope owner => exact h
  | template params constraint => exact h
  | requirements => trivial

theorem Session.Fits.enter {ρ : Type} {s : Session ρ} (hs : s.Fits) {f : Frame}
    (hf : f.Fits s.graph) : (s.enter f.enter).Fits :=
  Course.growing.frames.enter hs hf.enters

namespace Course.growing

variable {s : Session (List Marks)} {x : Action (List Marks) α} {Q : α → Graph → Prop}

theorem ownMarks (hx : Course.growing.Follows s.unmarked x Q) :
    Course.growing.Follows s (Action.ownMarks x) Q :=
  ⟨⟨hx.leads.grows, hx.leads.frames⟩, hx.result, hx.fails⟩

theorem restoreMark (hs : s.Fits) (ticket : Nat) :
    Course.growing.Follows s (Action.restoreMark ticket) fun _ _ => True := by
  cases hm : s.client[ticket]? with
  | none =>
    refine .of_eq (y := Pure.pure ()) (Action.restoreMark_of_none hm) (.pure hs trivial)
  | some m => exact .of_eq (Action.restoreMark_of_some hm) (restore hs m)

end Course.growing

/-- **A proper program adds to the graph, and leaves the frames that it enters.** -/
theorem ClientProgram.grows (p : ClientProgram α) {s : Session (List Marks)} (hs : s.Fits)
    (hp : p.Proper s) : Course.growing.Follows s p.run fun _ _ => True := by
  have hdeclares : (Course.growing : Course (List Marks)).Declares := Course.growing.declares
  have hframes : (Course.growing : Course (List Marks)).Frames := Course.growing.frames
  have hown : ∀ {g : Graph} {ds : List DeclHandle}, (∀ d ∈ ds, g.contains d = true) →
      ∀ d ∈ ds, (Course.growing : Course (List Marks)).Owns d g :=
    fun h d hd => ⟨h d hd, trivial⟩
  induction p generalizing s with
  | pure a => exact .pure hs trivial
  | bind p f ihp ihf =>
    exact .bind hs (ihp hs hp.1) fun a s' hs' _ _ hrun => ihf a hs' (hp.2 a s' hrun)
  | fail e => exact .throw hs trivial
  | abandon => exact .throw hs trivial
  | observe p ih => exact .observe (ih hs hp)
  | look => exact .graph_bind (.context_bind (.pure hs trivial))
  | build x => exact Course.growing.build_of_reaches hs hp
  | changeQueue k =>
    refine .context_bind (.bind hs (Course.growing.modifyContext ⟨rfl, rfl, rfl⟩) ?_)
    exact fun _ _ hs' _ _ _ => .pure hs' trivial
  | reportError d => exact Course.growing.reportError hs d
  | setLocation span => exact Course.growing.modifyContext ⟨rfl, rfl, rfl⟩
  | currentScope => exact .context_bind (.pure hs trivial)
  | depth => exact .context_bind (.pure hs trivial)
  | bindName n d => exact hp.elim
  | lookup n => exact .context_bind (.pure hs trivial)
  | lookupLocal n => exact .lookupLocal? hs trivial n
  | require e => exact Course.growing.require hs e
  | mark => exact ⟨⟨.refl _, .refl _⟩, fun _ _ => trivial, fun _ _ => trivial⟩
  | restore ticket => exact Course.growing.restoreMark hs ticket
  | trial p ih => exact Course.growing.trial hs (ih hs hp)
  | within f p ih =>
    exact .within hframes hs (Course.growing.ownMarks (ih (hs.enter hp.1).unmarked hp.2))
  | nameExpr n => exact Course.growing.nameExpr hs n
  | call callee args => exact Course.growing.call hs hp.1 hp.2
  | variableDecl n t written => exact .variableDecl hdeclares hs hp.1 hp.2.1 hp.2.2
  | functionDecl n params ret =>
    exact .functionDecl hdeclares hs hp.1 hp.2 fun _ _ => trivial
  | classDecl n => exact .classDecl hdeclares hs hp
  | defineFunction f body ih =>
    refine .defineFunction hdeclares hs trivial fun {t params defn} hform => ?_
    refine .framed hdeclares hframes hs (f := .scope f) hp.1 (fun _ _ => trivial)
      fun s₁ hs₁ hfits => ?_
    obtain ⟨hbody, hret⟩ := hp.2 t params defn s₁ hform hs₁
    have hown := Course.growing.ownMarks (ih hfits.unmarked hbody)
    exact (hret.follows Course.growing.runs hown).mono
      fun _ _ h => h _ List.mem_cons_self
  | templateDecl params constraint pattern ih =>
    refine .templateDecl hdeclares hs (hown hp.1) hp.2.1 ?_
    refine .framed hdeclares hframes hs (f := .template params constraint) hp.2.1
      (fun _ _ => trivial) fun s₁ hs₁ hfits => ?_
    obtain ⟨hbody, hret⟩ := hp.2.2 s₁ hs₁
    have hown := Course.growing.ownMarks (ih hfits.unmarked hbody)
    exact (hret.follows Course.growing.runs hown).mono
      fun _ _ h => ⟨h _ List.mem_cons_self, trivial⟩
  | conceptDecl n params definition ih =>
    refine .conceptDecl hdeclares hs hp.1 (hown hp.2.1) ?_
    refine .framed hdeclares hframes hs (f := .template params none) nofun (fun _ _ => trivial)
      fun s₁ hs₁ hfits => ?_
    obtain ⟨hbody, hret⟩ := hp.2.2 s₁ hs₁
    have hown := Course.growing.ownMarks (ih hfits.unmarked hbody)
    exact (hret.follows Course.growing.runs hown).mono
      fun _ _ h => h _ List.mem_cons_self
  | requiresExpr tparams params reqs ih =>
    refine .requiresExpr hdeclares hs hp.1 hp.2.1 ?_
    refine .framed hdeclares hframes hs (f := .requirements) trivial (fun _ _ => trivial)
      fun s₁ hs₁ hfits => ?_
    obtain ⟨hbody, hret⟩ := hp.2.2 s₁ hs₁
    exact hret.follows Course.growing.runs (Course.growing.ownMarks (ih hfits.unmarked hbody))

end SemanticCore
