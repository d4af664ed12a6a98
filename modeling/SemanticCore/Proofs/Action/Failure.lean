import SemanticCore.Proofs.Action.Sparing
import SemanticCore.Proofs.Action.Stacks
import SemanticCore.Proofs.Template.Freshness

/-!
# What a declaration that fails leaves behind

Declaring something means to build it, to bind its name, and to complete declarations that are there
by then: the parameters of a function are placed in it, a variable gets its initializer, the members
of a class are placed in it and the class gets its definition.  An action that fails keeps what it
has done to the graph, so the order of its steps decides what a failure leaves behind.  A function
places its parameters when nothing can fail any more, and a variable completes nothing but itself.
Defining a class places the members first, and only then finds out whether the class can be defined.

`Action.Intact d g s` says that the declaration `d` of the graph `g` is in the session `s` what it
was.  The rules for the `Outcome` of an action carry it from step to step.

* `Action.functionDecl_intact`, and its like — a declaration that fails leaves all others alone.
* `Action.graph_of_defineClass_failed` — a definition that fails has placed the members.
* `DeclaringRequest.failed_unchanged_iff` — **a request that fails changes nothing that was there,
  unless it is to define a class with a member that belongs elsewhere.**
-/

set_option autoImplicit false
namespace SemanticCore

open SemanticCore.Graph

namespace Action

variable {ρ α : Type} {d : DeclHandle} {g : Graph} {s s' : Session ρ} {P : α → Prop}

/-! ## Steps that leave a declaration as it was -/

/-- The declaration of the graph is in the session what it was. -/
abbrev Intact (d : DeclHandle) (g : Graph) (s : Session ρ) : Prop :=
  g.Spares d s.graph

section Steps

variable (h : Intact d g s)

include h

/-- Declaring something else either fails at once or succeeds. -/
theorem declare_intact {x : DeclHandle} (hx : x ≠ d) :
    Outcome (Intact d g) s (declare x) fun _ s' => Intact d g s' :=
  declare_outcome x h fun _ => (frame_spares d).trans h (spares_setContext hx _)

theorem restore_intact (m : Marks) :
    Outcome (Intact d g) s (restore m) fun _ s' => Intact d g s' := by
  cases hm : s.context.restore m with
  | ok c =>
    rw [Outcome, restore_of_ok hm]
    exact h
  | error e =>
    rw [Outcome, restore_of_error hm]
    exact h

variable (hd : g.contains d = true)

include hd

theorem build_intact {y : Build α} (hy : Build.Spares d y P) :
    Outcome (Intact d g) s (build y) fun a s' => Intact d g s' ∧ P a := by
  obtain ⟨hspares, hP⟩ := hy s.graph (h.contains hd)
  exact .build ⟨(frame_spares d).trans h hspares, hP⟩

theorem construct_intact {y : Attempt BuildError α} (hy : Attempt.Spares d y P) :
    Outcome (Intact d g) s (construct y) fun a s' => Intact d g s' ∧ P a := by
  have hrun : Build.Spares d (y.adapt SemanticError.ofBuild).run fun r =>
      ∀ a, r = .ok a → P a := Attempt.Spares.adapt hy
  refine .bind (build_intact h hd hrun) fun r s₁ ⟨h₁, hr⟩ => ?_
  cases r with
  | ok a => exact .pure ⟨h₁, hr a rfl⟩
  | error e => exact .throw _ h₁

/-! ## Declaring -/

theorem variableDecl_intact (n : NameHandle) (t : TypeHandle) (written : Option InitSyntax) :
    Outcome (Intact d g) s (variableDecl n t written) fun _ _ => True := by
  refine .bind (build_intact h hd (.decl n _)) fun x s₁ ⟨h₁, hx⟩ => .context_bind ?_
  refine .bind (declare_intact h₁ hx) fun _ s₂ h₂ => ?_
  have hrun : Build.Spares d (Build.initVariable x t written).run fun r =>
      ∀ a, r = .ok a → True := Attempt.Spares.initVariable hx t written
  refine .bind (build_intact h₂ hd hrun) fun r s₃ ⟨h₃, _⟩ => ?_
  cases r with
  | ok _ => exact .pure trivial
  | error e => exact .bind (restore_intact h₃ _) fun _ s₄ h₄ => .throw _ h₄

/-- The parameters are placed when the function is declared, and then nothing fails. -/
theorem functionDecl_intact (n : NameHandle) (params : List DeclHandle) (ret : TypeHandle) :
    Outcome (Intact d g) s (functionDecl n params ret) fun _ _ => True := by
  refine .bind (construct_intact h hd (.functionDecl n params ret)) fun f s₁ ⟨h₁, hf⟩ => ?_
  refine .bind (declare_intact h₁ hf) fun _ s₂ h₂ => ?_
  exact .bind (R := fun _ _ => True) (.build trivial) fun _ s₃ _ => .pure trivial

theorem classDecl_intact (n : NameHandle) :
    Outcome (Intact d g) s (classDecl n) fun _ _ => True := by
  refine .bind (build_intact h hd (.decl n _)) fun x s₁ ⟨h₁, hx⟩ => ?_
  exact .bind (declare_intact h₁ hx) fun _ s₂ _ => .pure trivial

end Steps

/-! ## Defining a class -/

/-- **A class definition that fails has placed the members**, and has not touched anything else. -/
theorem graph_of_defineClass_failed {c : DeclHandle} {members : List DeclHandle} {e : Failure}
    (h : defineClass c members s = (.error e, s')) :
    s'.graph = (Build.setContexts members c (Build.defn (.ofClass members) s.graph).2).2 := by
  rcases hdefn : Build.defn (.ofClass members) s.graph with ⟨definition, g₁⟩
  have hrun : defineClass c members s = construct (Build.define c definition)
      { s with graph := (Build.setContexts members c g₁).2 } :=
    (bind_of_ok (build_of_eq hdefn)).trans (build_bind _ _)
  rw [hrun] at h
  rcases hdefine : Build.define c definition (Build.setContexts members c g₁).2 with ⟨e' | u, g₂⟩
  · have hgraph : g₂ = (Build.setContexts members c g₁).2 := by
      rcases define_cases (Build.setContexts members c g₁).2 c definition with hsame | ⟨hslot, -⟩
      · rw [← hsame, hdefine]
      · -- a slot that is empty is filled
        rw [Build.define, Attempt.get_bind, hslot] at hdefine
        cases hdefine
    rw [construct, attempt_of_error (Attempt.adapt_of_error hdefine _)] at h
    cases h
    exact hgraph
  · rw [construct, attempt_of_ok (Attempt.adapt_of_ok hdefine _)] at h
    cases h

end Action

/-! ## Requests -/

/-- A request to declare something that has no body, or to define a class. -/
inductive DeclaringRequest where
  | var (n : NameHandle) (t : TypeHandle) (written : Option InitSyntax)
  | function (n : NameHandle) (params : List DeclHandle) (ret : TypeHandle)
  | ofClass (n : NameHandle)
  | defineClass (c : DeclHandle) (members : List DeclHandle)

namespace DeclaringRequest

variable {ρ : Type}

/-- Serve the request. -/
def run : DeclaringRequest → Action ρ Unit
  | var n t written => do let _ ← Action.variableDecl n t written
  | function n params ret => do let _ ← Action.functionDecl n params ret
  | ofClass n => do let _ ← Action.classDecl n
  | defineClass c members => Action.defineClass c members

/-- Where a declaration that was there is placed even if the request fails. -/
def placement? (d : DeclHandle) : DeclaringRequest → Option DeclHandle
  | defineClass c members => if members.contains d then some c else none
  | var _ _ _ | function _ _ _ | ofClass _ => none

/-- What a request that fails leaves of a declaration that was there. -/
theorem decl_of_failed {r : DeclaringRequest} {s s' : Session ρ} {e : Failure}
    (h : r.run s = (.error e, s')) {d : DeclHandle} (hd : s.graph.contains d = true) :
    s'.graph.decl d =
      { s.graph.decl d with context := (r.placement? d).or (s.graph.decl d).context } := by
  have hstart : Action.Intact d s.graph s := (frame_spares d).refl _
  have hintact : ∀ {x : Action ρ Unit}, x s = (.error e, s') →
      Action.Outcome (Action.Intact d s.graph) s x (fun _ _ => True) →
      s'.graph.decl d = s.graph.decl d := by
    intro x hx hend
    rw [Action.Outcome, hx] at hend
    exact hend.decl hd
  cases r with
  | var n t written =>
    exact hintact h (.bind (Action.variableDecl_intact hstart hd n t written) fun _ _ h => .pure h)
  | function n params ret =>
    exact hintact h (.bind (Action.functionDecl_intact hstart hd n params ret) fun _ _ h => .pure h)
  | ofClass n => exact hintact h (.bind (Action.classDecl_intact hstart hd n) fun _ _ h => .pure h)
  | defineClass c members =>
    have hspares : s.graph.Spares d (Build.defn (.ofClass members) s.graph).2 :=
      (frame_spares d).defn _ _
    rw [Action.graph_of_defineClass_failed h, Build.decl_setContexts _ (hspares.contains hd),
      hspares.decl hd]
    simp only [placement?, List.contains_iff_mem]
    split <;> rfl

/-- **A request that fails changes nothing that was there**, unless it is to define a class with a
member that belongs elsewhere: that member is placed in the class.  Its name and its form, with the
definition or the initializer, are what they were. -/
theorem failed_unchanged_iff {r : DeclaringRequest} {s s' : Session ρ} {e : Failure}
    (h : r.run s = (.error e, s')) :
    (∀ d : DeclHandle, s.graph.contains d = true → s'.graph.decl d =
      { s.graph.decl d with context := (r.placement? d).or (s.graph.decl d).context }) ∧
    ((∀ d : DeclHandle, s.graph.contains d = true → s'.graph.decl d = s.graph.decl d) ↔
      ∀ c members, r = .defineClass c members → ∀ m ∈ members, s.graph.contains m = true →
        (s.graph.decl m).context = some c) := by
  refine ⟨fun d hd => decl_of_failed h hd, fun hsame c members hr m hm hc => ?_,
    fun hplaced d hd => ?_⟩
  · subst hr
    have hm' := congrArg Decl.context ((hsame m hc).symm.trans (decl_of_failed h hc))
    rwa [placement?, if_pos (List.contains_iff_mem.2 hm)] at hm'
  · rw [decl_of_failed h hd]
    cases r with
    | defineClass c members =>
      rw [placement?]
      split
      · next hm => rw [Option.some_or, ← hplaced c members rfl d (List.contains_iff_mem.1 hm) hd]
      · rfl
    | _ => rfl

/-! ## A class that is defined twice -/

/-- Declare and define a class, declare another one in a scope of its own, and build a parameter. -/
def declareClasses : Action Unit Unit := do
  let c ← Action.classDecl .globalName
  Action.defineClass c []
  let _ ← Action.withScope .globalNamespace (Action.classDecl .globalName)
  let _ ← Action.build (Build.objectParam .globalName ⟨1⟩)

/-- A session in which the declaration 1 is the class that is defined, 2 the other one, and 3 the
parameter. -/
def classesSession : Session Unit :=
  (declareClasses ⟨.initial .empty 32, .initial default .structural, ()⟩).2

/-- A function of the name of the class is refused, and its parameter is not placed. -/
theorem failed_unchanged_iff_function :
    (∃ s', (function .globalName [⟨3⟩] ⟨0⟩).run classesSession =
        (.error (.error (.type (.redefinition ⟨1⟩))), s') ∧
      ∀ d : DeclHandle, classesSession.graph.contains d = true →
        s'.graph.decl d = classesSession.graph.decl d) ∧
    classesSession.graph.contains (⟨3⟩ : DeclHandle) = true := by
  have hfail : ((function .globalName [⟨3⟩] ⟨0⟩).run classesSession).1 =
      .error (.error (.type (.redefinition ⟨1⟩))) := by decide +kernel
  rcases hrun : (function .globalName [⟨3⟩] ⟨0⟩).run classesSession with ⟨ending, s'⟩
  rw [hrun] at hfail
  obtain rfl : ending = _ := hfail
  exact ⟨⟨s', rfl, (failed_unchanged_iff hrun).2.2 nofun⟩, by decide +kernel⟩

/-- Defining the class again is refused, and the other class belongs to it from then on. -/
theorem failed_definition_moves_member :
    ((defineClass ⟨1⟩ [⟨2⟩]).run classesSession).1 =
      .error (.error (.type (.redefinition ⟨1⟩))) ∧
    classesSession.graph.contains (⟨2⟩ : DeclHandle) = true ∧
    (classesSession.graph.decl ⟨2⟩).context = some .globalNamespace ∧
    (((defineClass ⟨1⟩ [⟨2⟩]).run classesSession).2.graph.decl ⟨2⟩).context = some ⟨1⟩ := by
  decide +kernel

end DeclaringRequest
end SemanticCore
