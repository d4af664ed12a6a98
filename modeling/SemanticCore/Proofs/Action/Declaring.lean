import SemanticCore.Proofs.Action.Stacks
import SemanticCore.Proofs.Graph.Sparing

/-!
# What comes of declaring a name

Declaring comes down to one step: is the name bound in the innermost scope?  If it is, nothing else
happens; if it is not, it is bound, and what remains of the action completes the declaration.  The
one thing that can still fail is the initializer of a variable, and then the binding is taken back.

`Action.Settles n d s` lists these four ways to end, for a declaration `d` that was built with the
name `n` and is about to be declared in the session `s`.  Every action that declares something gets
to such a point, `Action.Declares`, or fails before it.  So whatever is to be known about them is to
be known about four cases.

* `Attempt.Unopposed.initFrom` — no rule for initializers looks at names.
* `Action.Declares.redefinition_iff` — **what is redefined is what was bound.**
-/

set_option autoImplicit false
namespace SemanticCore

open SemanticCore.Graph

variable {α β ρ : Type}

/-! ## Errors that are not about names -/

/-- The error is that a name, or a slot of a declaration, is taken. -/
def SemanticError.isRedefinition : SemanticError → Bool
  | type (.redefinition _) => true
  | _ => false

/-- Whatever graph the attempt is run on, it does not fail because something is taken. -/
def Attempt.Unopposed (x : Attempt SemanticError α) : Prop :=
  ∀ g e, (x g).1 = .error e → e.isRedefinition = false

namespace Attempt.Unopposed

theorem pure (a : α) : Unopposed (Pure.pure a) := by
  rintro g e ⟨⟩

theorem throw {e : SemanticError} (he : e.isRedefinition = false) :
    Unopposed (MonadExcept.throw e : Attempt SemanticError α) := by
  rintro g _ ⟨⟩
  exact he

theorem bind {x : Attempt SemanticError α} {f : α → Attempt SemanticError β} (hx : Unopposed x)
    (hf : ∀ a, Unopposed (f a)) : Unopposed (x >>= f) := by
  intro g e he
  rcases hxg : x g with ⟨e' | a, g'⟩
  · rw [bind_of_error hxg] at he
    cases he
    exact hx g e (congrArg Prod.fst hxg)
  · rw [bind_of_ok hxg] at he
    exact hf a g' e he

theorem get_bind {f : Graph → Attempt SemanticError α} (hf : ∀ g, Unopposed (f g)) :
    Unopposed ((get : Attempt SemanticError Graph) >>= f) := fun g => hf g g

theorem lift (x : Build α) : Unopposed (liftM x : Attempt SemanticError α) := by
  rintro g e ⟨⟩

theorem throw_bind {e : SemanticError} (he : e.isRedefinition = false)
    {f : α → Attempt SemanticError β} :
    Unopposed ((MonadExcept.throw e : Attempt SemanticError α) >>= f) := by
  rintro g _ ⟨⟩
  exact he

theorem initZero (t : TypeHandle) : Unopposed (Build.initZero t) := by
  refine .get_bind fun _ => ?_
  split
  · exact .throw_bind rfl
  · refine .get_bind fun _ => ?_
    split
    · exact .lift _
    · refine .get_bind fun _ => ?_
      split
      · exact .throw_bind rfl
      · refine .get_bind fun _ => .get_bind fun _ => ?_
        dsimp only
        split
        · refine .get_bind fun _ => ?_
          split
          · exact .bind (.lift _) fun _ => .lift _
          · exact .bind (.lift _) fun _ => .lift _
        · exact .throw rfl

theorem initDefault (t : TypeHandle) : Unopposed (Build.initDefault t) := by
  refine .get_bind fun _ => ?_
  split
  · exact .throw_bind rfl
  · exact .lift _

theorem initValue (t : TypeHandle) : Unopposed (Build.initValue t) := by
  refine .get_bind fun _ => ?_
  split
  · exact .throw_bind rfl
  · refine .get_bind fun _ => ?_
    split
    · exact .throw_bind rfl
    · exact initZero t

theorem initReference (t : TypeHandle) (e : ExprHandle) :
    Unopposed (Build.initReference t e) := by
  refine .get_bind fun _ => ?_
  split
  · exact .throw_bind rfl
  · refine .get_bind fun _ => .get_bind fun _ => .get_bind fun _ => .get_bind fun _ =>
      .get_bind fun _ => ?_
    split
    · exact .lift _
    · exact .throw rfl

theorem convert (e : ExprHandle) (t : TypeHandle) : Unopposed (Build.convert e t) := by
  refine .bind (.lift _) fun _ => .get_bind fun _ => .get_bind fun _ => ?_
  dsimp only
  split
  · exact .pure _
  · refine .get_bind fun _ => ?_
    split
    · exact .lift _
    · exact .throw rfl

theorem convertAndCopy (t : TypeHandle) (e : ExprHandle) :
    Unopposed (Build.convertAndCopy t e) := by
  refine .get_bind fun _ => .get_bind fun _ => .get_bind fun _ => ?_
  split
  · exact .lift _
  · refine .get_bind fun _ => ?_
    split
    · exact .throw rfl
    · exact .bind (convert e t) fun _ => .lift _

theorem initCopy (t : TypeHandle) (e : ExprHandle) : Unopposed (Build.initCopy t e) := by
  refine .get_bind fun _ => ?_
  split
  · exact initReference t e
  · refine .get_bind fun _ => ?_
    split
    · exact .lift _
    · refine .get_bind fun _ => ?_
      split
      · exact .throw rfl
      · refine .get_bind fun _ => ?_
        split
        · exact .throw rfl
        · exact convertAndCopy t e

theorem initDirect (t : TypeHandle) (es : List ExprHandle) :
    Unopposed (Build.initDirect t es) := by
  cases es with
  | nil =>
    refine .get_bind fun _ => ?_
    dsimp only
    split
    · exact .throw_bind rfl
    · exact initValue t
  | cons e rest =>
    refine .get_bind fun _ => ?_
    dsimp only
    split
    · exact .throw_bind rfl
    · refine .get_bind fun _ => ?_
      split
      · exact .throw rfl
      · refine .get_bind fun _ => ?_
        split
        · exact initReference t e
        · refine .get_bind fun _ => ?_
          split
          · exact .lift _
          · refine .get_bind fun _ => ?_
            split
            · exact .throw rfl
            · exact convertAndCopy t e

/-- No rule for initializers looks at names. -/
theorem initFrom (t : TypeHandle) (written : InitSyntax) :
    Unopposed (Build.initFrom t written) := by
  cases written with
  | equal e => exact initCopy t e
  | paren es => exact initDirect t es
  | brace es => exact .throw rfl

end Attempt.Unopposed

/-! ## Completing a declaration -/

theorem Graph.extends_setContexts (xs : List DeclHandle) (context : DeclHandle) (g : Graph) :
    g.Extends (Build.setContexts xs context g).2 := by
  induction xs generalizing g with
  | nil => exact .refl g
  | cons x xs ih => exact (extends_setContext x context g).trans (ih _)

namespace Build

variable {g : Graph} {d : DeclHandle} {t : TypeHandle}

theorem contains_decl (n : NameHandle) (form : DeclForm) (g : Graph) :
    (decl n form g).2.contains (decl n form g).1 = true :=
  contains_iff.2 (by
    change g.decls.size < (g.decls.push _).size
    rw [Array.size_push]
    exact Nat.lt_succ_self _)

/-- A declaration is what it was built as, and is not placed anywhere. -/
theorem decl_read (n : NameHandle) (form : DeclForm) (g : Graph) :
    Graph.decl (decl n form g).2 (decl n form g).1 = ⟨n, none, form⟩ :=
  (getD_push g.decls _ default _).trans (if_pos rfl)

/-- Placing a declaration leaves its form as it is. -/
theorem form_setContext (x context : DeclHandle) (g : Graph) (d : DeclHandle) :
    (Graph.decl (setContext x context g).2 d).form = (g.decl d).form := by
  rcases g.decl_modify x (fun decl => { decl with context := some context }) d with h | ⟨-, h⟩
  · exact congrArg Decl.form h
  · exact (congrArg Decl.form h :)

theorem setInitializer_of_empty (h : (g.decl d).form = .var t none) (i : InitHandle) :
    (setInitializer d i g).1 = .ok () := by
  rw [setInitializer, Attempt.get_bind, h]
  rfl

/-- Initializing a variable that was not initialized only extends the graph, and fails for no other
reason than what its initializer is. -/
theorem initVariable_of_empty {g' : Graph} {r : Except SemanticError Unit}
    {written : Option InitSyntax} (h : (g.decl d).form = .var t none)
    (hrun : (initVariable d t written).run g = (r, g')) :
    g.Extends g' ∧ ∀ e, r = .error e → e.isRedefinition = false := by
  have hd : g.contains d = true := contains_of_form_ne (by rw [h]; rintro ⟨⟩)
  have hset : ∀ {x : Attempt SemanticError InitHandle}, Attempt.Within (Graph.Spares d) x →
      Attempt.Unopposed x → (x >>= fun i => (setInitializer d i).adapt .ofBuild) g = (r, g') →
      g.Extends g' ∧ ∀ e, r = .error e → e.isRedefinition = false := by
    intro x hwithin hx hrun
    have hspares : g.Spares d (x g).2 := hwithin g
    rcases hxg : x g with ⟨e | i, g₁⟩
    · rw [hxg] at hspares
      rw [Attempt.bind_of_error hxg] at hrun
      cases hrun
      exact ⟨hspares.grown, by rintro _ ⟨⟩; exact hx g e (congrArg Prod.fst hxg)⟩
    · rw [hxg] at hspares
      have hform : (g₁.decl d).form = .var t none := by rw [hspares.decl hd, h]
      have hfill := extends_setInitializer d i g₁
      rcases hslot : setInitializer d i g₁ with ⟨e | u, g₂⟩
      · cases (congrArg Prod.fst hslot).symm.trans (setInitializer_of_empty hform i)
      · rw [hslot] at hfill
        rw [Attempt.bind_of_ok hxg, Attempt.adapt_of_ok hslot] at hrun
        cases hrun
        exact ⟨hspares.grown.trans hfill, by rintro _ ⟨⟩⟩
  cases written with
  | none => exact hset (.initDefault (frame_spares d).toFrame t) (.initDefault t) hrun
  | some w => exact hset (.initFrom (frame_spares d) t w) (.initFrom t w) hrun

end Build

/-! ## The ways to end -/

/-- Without new bindings, names are looked up in the innermost scope as before. -/
theorem Context.Adds.lookupLocal?_eq {c c' : Context} (h : c.Adds [] c') (n : NameHandle) :
    c'.lookupLocal? n = c.lookupLocal? n := by
  have hbindings : c'.bindings = c.bindings := h.bindings
  rw [lookupLocal?, lookupLocal?, innermost, innermost, h.scopes, hbindings]

namespace Action

/-- What can come of declaring `d` by the name `n` in the session `s`, and of completing it. -/
inductive Settles (n : NameHandle) (d : DeclHandle) (s : Session ρ) :
    Except Failure DeclHandle × Session ρ → Prop
  /-- The innermost scope begins above the bindings that there are. -/
  | stale {m : Misuse} (h : s.context.lookupLocal? n = .error m) :
    Settles n d s (.error (.misuse m), s)
  | bound {earlier : DeclHandle} (h : s.context.lookupLocal? n = .ok (some earlier)) :
    Settles n d s (.error (.error (.type (.redefinition earlier))), s)
  | declared {g : Graph} (h : s.context.lookupLocal? n = .ok none) (hg : s.graph.Extends g) :
    Settles n d s (.ok d, { s with graph := g, context := s.context.bind n d })
  /-- The declaration cannot be completed, and the binding is taken back. -/
  | undone {e : SemanticError} {g : Graph} (h : s.context.lookupLocal? n = .ok none)
    (he : e.isRedefinition = false) (hg : s.graph.Extends g) :
    Settles n d s (.error (.error e), { s with graph := g })

/-- The action gets to declaring a declaration of the name `n`, with no more bindings than there
were, and settles it. -/
def Declares (n : NameHandle) (s : Session ρ) (x : Action ρ DeclHandle) : Prop :=
  ∃ d s₁, s.Adds [] s₁ ∧ s₁.graph.contains d = true ∧ (s₁.graph.decl d).name = n ∧
    Settles n d s₁ (x s)

/-- What is redefined is what the innermost scope bound. -/
theorem Settles.redefinition_iff {s : Session ρ} {n : NameHandle} {d : DeclHandle}
    {ending : Except Failure DeclHandle × Session ρ} (h : Settles n d s ending)
    (earlier : DeclHandle) : ending.1 = .error (.error (.type (.redefinition earlier))) ↔
      s.context.lookupLocal? n = .ok (some earlier) := by
  cases h with
  | stale h =>
    rw [h]
    exact ⟨nofun, nofun⟩
  | bound h =>
    rw [h]
    exact ⟨(by rintro ⟨⟩; rfl), (by rintro ⟨⟩; rfl)⟩
  | declared h hg =>
    rw [h]
    exact ⟨nofun, nofun⟩
  | undone h he hg =>
    rw [h]
    exact ⟨(by rintro ⟨⟩; cases he), nofun⟩

/-- **What is redefined is what was bound**, when the action began, in the scope that was innermost
then. -/
theorem Declares.redefinition_iff {s : Session ρ} {n : NameHandle} {x : Action ρ DeclHandle}
    (h : Declares n s x) (earlier : DeclHandle) :
    (x s).1 = .error (.error (.type (.redefinition earlier))) ↔
      s.context.lookupLocal? n = .ok (some earlier) := by
  obtain ⟨d, s₁, hadds, -, -, hsettles⟩ := h
  rw [hsettles.redefinition_iff, hadds.context.lookupLocal?_eq]

/-- The same of a parameter, which is declared without being built. -/
theorem declare_redefinition_iff (d earlier : DeclHandle) (s : Session ρ) :
    (declare d s).1 = .error (.error (.type (.redefinition earlier))) ↔
      s.context.lookupLocal? (s.graph.decl d).name = .ok (some earlier) := by
  cases h : s.context.lookupLocal? (s.graph.decl d).name with
  | error m =>
    rw [declare_of_stale h]
    exact ⟨nofun, nofun⟩
  | ok found =>
    cases found with
    | none =>
      rw [declare_of_free h]
      exact ⟨nofun, nofun⟩
    | some x =>
      rw [declare_of_bound h]
      exact ⟨(by rintro ⟨⟩; rfl), (by rintro ⟨⟩; rfl)⟩

section Run

variable {s s₀ : Session ρ} {n : NameHandle} {form : DeclForm} {g₀ : Graph}
  {y : Build DeclHandle} {x : Action ρ DeclHandle}

/-- The action builds a declaration in the session `s₀`, declares it, and goes on with the rest if
that succeeds.  What the rest knows of the context is from before. -/
theorem Declares.of_decl {rest : DeclHandle → Context → Action ρ DeclHandle}
    (hadds : s.Adds [] s₀)
    (hrun : x s = (build y >>= fun d => context >>= fun c => declare d >>= fun _ => rest d c) s₀)
    (hy : y s₀.graph = Build.decl n form g₀)
    (hrest : ∀ d g₁ g, g₁.Extends g → (g.decl d).form = form →
      s₀.context.lookupLocal? n = .ok none → Settles n d { s₀ with graph := g₁ }
        (rest d s₀.context { s₀ with graph := g, context := s₀.context.bind n d })) :
    Declares n s x := by
  have hd := Build.contains_decl n form g₀
  have hdecl := Build.decl_read n form g₀
  rcases hbuild : Build.decl n form g₀ with ⟨d, g₁⟩
  rw [hbuild] at hd hdecl hy
  let s₁ : Session ρ := { s₀ with graph := g₁ }
  have hname : (s₁.graph.decl d).name = n := congrArg Decl.name hdecl
  refine ⟨d, s₁, hadds.withGraph g₁, hd, hname, ?_⟩
  have hcontext : (context >>= fun c => declare d >>= fun _ => rest d c) s₁ =
      (declare d >>= fun _ => rest d s₀.context) s₁ := rfl
  rw [hrun, bind_of_ok (build_of_eq hy), hcontext]
  cases hlookup : s₁.context.lookupLocal? n with
  | error m =>
    rw [bind_of_error (declare_of_stale (hname.symm ▸ hlookup))]
    exact .stale hlookup
  | ok found =>
    cases found with
    | none =>
      rw [bind_of_ok (declare_of_free (hname.symm ▸ hlookup)), hname]
      refine hrest d g₁ _ (extends_setContext d _ g₁) ?_ hlookup
      rw [Build.form_setContext]
      exact congrArg Decl.form hdecl
    | some earlier =>
      rw [bind_of_error (declare_of_bound (hname.symm ▸ hlookup))]
      exact .bound hlookup

/-- The rest of the action only completes the declaration. -/
theorem Declares.of_complete {rest : DeclHandle → Action ρ DeclHandle} (hadds : s.Adds [] s₀)
    (hrun : x s = (build y >>= fun d => declare d >>= fun _ => rest d) s₀)
    (hy : y s₀.graph = Build.decl n form g₀)
    (hrest : ∀ d (s₂ : Session ρ), ∃ g, s₂.graph.Extends g ∧
      rest d s₂ = (.ok d, { s₂ with graph := g })) :
    Declares n s x := by
  have hread : x s =
      (build y >>= fun d => context >>= fun _ => declare d >>= fun _ => rest d) s₀ := hrun
  refine .of_decl hadds hread hy fun d g₁ g hg _ hfree => ?_
  obtain ⟨g', hg', heq⟩ := hrest d { s₀ with graph := g, context := s₀.context.bind n d }
  rw [heq]
  exact .declared hfree (hg.trans hg')

end Run

/-! ## The declaring actions -/

theorem declares_variableDecl (n : NameHandle) (t : TypeHandle) (written : Option InitSyntax)
    (s : Session ρ) : Declares n s (variableDecl n t written) := by
  refine .of_decl (y := Build.variableDecl n t none) (.refl s) rfl rfl
    fun d g₁ g hg hform hfree => ?_
  rcases hinit : (Build.initVariable d t written).run g with ⟨e | u, g₂⟩
  all_goals
    obtain ⟨hext, herror⟩ := Build.initVariable_of_empty hform hinit
    rw [bind_of_ok (build_of_eq (s := { s with graph := g, context := s.context.bind n d }) hinit)]
  · have hundo : restore s.context.marks ⟨g₂, s.context.bind n d, s.client⟩ =
        (.ok (), ⟨g₂, s.context, s.client⟩) := restore_bound rfl
    dsimp only
    rw [bind_of_ok hundo]
    exact .undone hfree (herror e rfl) (hg.trans hext)
  · exact .declared hfree (hg.trans hext)

theorem declares_classDecl (n : NameHandle) (s : Session ρ) : Declares n s (classDecl n) := by
  have hrun : classDecl n s = (do
      let d ← build (Build.classDecl n)
      declare d
      return d) s := rfl
  exact .of_complete (.refl s) hrun rfl fun _ s₂ => ⟨s₂.graph, .refl _, rfl⟩

theorem declares_functionDecl {n : NameHandle} {params : List DeclHandle} {ret t : TypeHandle}
    {s : Session ρ} {g : Graph} (h : Build.functionType params ret s.graph = (.ok t, g)) :
    Declares n s (functionDecl n params ret) := by
  have hbuild : Build.functionDecl n params ret s.graph =
      (.ok (Build.decl n (.function t params none) g).1,
        (Build.decl n (.function t params none) g).2) := Attempt.bind_of_ok h
  have hrun : functionDecl n params ret s = (do
      let d ← build (.decl n (.function t params none))
      declare d
      build (.setContexts params d)
      return d) { s with graph := g } := by
    rw [build_bind]
    exact bind_of_ok (attempt_of_ok (Attempt.adapt_of_ok hbuild _))
  exact .of_complete ((Session.Adds.refl s).withGraph g) hrun rfl fun d s₂ =>
    ⟨_, extends_setContexts params d s₂.graph, build_bind _ _⟩

/-- A template is declared when its body has been resolved. -/
theorem declares_templateDecl {params : List DeclHandle} {constraint : Option ExprHandle}
    {pattern : Action ρ DeclHandle} (hpattern : Inside pattern) {s s₁ : Session ρ} {p : DeclHandle}
    (h : within (.template params constraint) (declareAll params >>= fun _ => pattern) s =
      (.ok p, s₁)) :
    Declares (s₁.graph.decl p).name s (templateDecl params constraint pattern) :=
  .of_complete ((framed_outcome (.template params constraint) params hpattern s).of_ok h)
    (bind_of_ok h) rfl fun d s₂ => ⟨_, (extends_setContext p d s₂.graph).trans
      (extends_setContexts params d _),
      (build_bind _ _).trans (build_bind _ _)⟩

/-- A concept is declared when its definition has been resolved. -/
theorem declares_conceptDecl {n : NameHandle} {params : List DeclHandle}
    {definition : Action ρ ExprHandle} (hdefinition : Inside definition) {s s₁ : Session ρ}
    {e : ExprHandle}
    (h : within (.template params none) (declareAll params >>= fun _ => definition) s =
      (.ok e, s₁)) :
    Declares n s (conceptDecl n params definition) :=
  .of_complete ((framed_outcome (.template params none) params hdefinition s).of_ok h)
    (bind_of_ok h) rfl fun d s₂ =>
      ⟨_, extends_setContexts params d s₂.graph, build_bind _ _⟩

/-- The action declares something, or fails before it does and adds no bindings. -/
def MayDeclare (s : Session ρ) (x : Action ρ DeclHandle) : Prop :=
  s.Adds [] (x s).2 ∨ ∃ n, Declares n s x

theorem mayDeclare_functionDecl (n : NameHandle) (params : List DeclHandle) (ret : TypeHandle)
    (s : Session ρ) : MayDeclare s (functionDecl n params ret) := by
  rcases htype : Build.functionType params ret s.graph with ⟨e | t, g⟩
  · have hfail : functionDecl n params ret s =
        (.error (.error (.ofBuild e)), { s with graph := g }) :=
      bind_of_error (attempt_of_error (Attempt.adapt_of_error (Attempt.bind_of_error htype) _))
    rw [MayDeclare, hfail]
    exact .inl ((Session.Adds.refl s).withGraph g)
  · exact .inr ⟨n, declares_functionDecl htype⟩

theorem mayDeclare_templateDecl (params : List DeclHandle) (constraint : Option ExprHandle)
    {pattern : Action ρ DeclHandle} (hpattern : Inside pattern) (s : Session ρ) :
    MayDeclare s (templateDecl params constraint pattern) := by
  have hframe := framed_outcome (.template params constraint) params hpattern s
  rcases hrun : within (.template params constraint) (declareAll params >>= fun _ => pattern) s
    with ⟨e | p, s₁⟩
  · have hfail : templateDecl params constraint pattern s = (.error e, s₁) := bind_of_error hrun
    rw [Outcome, hrun] at hframe
    rw [MayDeclare, hfail]
    exact .inl hframe
  · exact .inr ⟨_, declares_templateDecl hpattern hrun⟩

theorem mayDeclare_conceptDecl (n : NameHandle) (params : List DeclHandle)
    {definition : Action ρ ExprHandle} (hdefinition : Inside definition) (s : Session ρ) :
    MayDeclare s (conceptDecl n params definition) := by
  have hframe := framed_outcome (.template params none) params hdefinition s
  rcases hrun : within (.template params none) (declareAll params >>= fun _ => definition) s
    with ⟨e | x, s₁⟩
  · have hfail : conceptDecl n params definition s = (.error e, s₁) := bind_of_error hrun
    rw [Outcome, hrun] at hframe
    rw [MayDeclare, hfail]
    exact .inl hframe
  · exact .inr ⟨n, declares_conceptDecl hdefinition hrun⟩

end Action
end SemanticCore
