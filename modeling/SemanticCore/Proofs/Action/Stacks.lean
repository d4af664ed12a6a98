import SemanticCore.Proofs.Action.Growth
import SemanticCore.Proofs.Action.Outcome
import SemanticCore.Proofs.Action.Scopes
import SemanticCore.Proofs.Context.Tables

/-!
# What an action leaves in the stacks

`Context.Adds table c c'` says that `c'` has the frames of `c`, and the bindings of `c` with those
of the table on top.  An action that fails adds nothing, wherever in it and for whatever reason, and
one that succeeds adds what it declared.

Bodies are programs of a client, which may bind names and take bindings back.  In the frame that is
innermost such a program adds to what was there when the frame was entered, since marks are only
restored in the frame that they were taken in, and leaving the frame removes all of it.

* `ClientProgram.confined` — what a program does to the frame in which it runs.
* `Construct.run_stacks` — **an action with any bodies leaves the stacks as they were**, but for the
  binding of what it declared.
-/

set_option autoImplicit false
namespace SemanticCore

/-! ## Contexts with more bindings -/

/-- The same frames are open in both contexts, and the second one has the bindings of the table
besides. -/
structure Context.Adds (table : Table) (c c' : Context) : Prop extends c.SameFrames c' where
  requirements : c'.requirements.length = c.requirements.length
  bindings : c'.bindings = table ++ c.bindings

/-- Restoring the marks removes nothing that the context has. -/
structure Marks.Spares (m : Marks) (c : Context) : Prop where
  bindings : c.bindings.length ≤ m.bindings
  requirements : c.requirements.length ≤ m.requirements

theorem Context.length_cutRequired (n : Nat) (frames : List (List ExprHandle)) :
    (cutRequired n frames).length = frames.length := by
  cases frames <;> rfl

namespace Context.Adds

variable {c c' c'' : Context} {table table' : Table}

theorem refl (c : Context) : c.Adds [] c :=
  ⟨.refl c, rfl, rfl⟩

theorem trans (h : c.Adds table c') (h' : c'.Adds table' c'') : c.Adds (table' ++ table) c'' where
  toSameFrames := h.toSameFrames.trans h'.toSameFrames
  requirements := h'.requirements.trans h.requirements
  bindings := by rw [h'.bindings, h.bindings, List.append_assoc]

theorem bind (h : c.Adds table c') (n : NameHandle) (d : DeclHandle) :
    c.Adds ((n, d) :: table) (c'.bind n d) where
  toSameFrames := ⟨h.scopes, h.templates, h.oracle⟩
  requirements := h.requirements
  bindings := congrArg ((n, d) :: ·) h.bindings

/-- A context that grew without new bindings. -/
theorem of_extends (h : c.Extends c') (hb : c'.bindings = c.bindings) : c.Adds [] c' where
  toSameFrames := ⟨h.scopes, h.templates, h.oracle⟩
  requirements := h.requirements.length_eq
  bindings := hb

/-- Restoring marks that remove nothing of `c` leaves what was added to `c`, or a part of it. -/
theorem restore (h : c.Adds table c') {m : Marks} (hm : m.Spares c)
    (hr : c'.restore m = .ok c'') : ∃ table', c.Adds table' c'' := by
  have hframes := h.toSameFrames.trans (.restore hr)
  have hopen : oldest m.requirements c'.requirements = c'.requirements := by
    rw [oldest, h.requirements, Nat.sub_eq_zero_of_le hm.requirements, List.drop_zero]
  obtain ⟨kept, hkept⟩ := suffix_oldest (h.bindings ▸ List.suffix_append table c.bindings)
    hm.bindings
  have hc'' := eq_of_restore hr
  refine ⟨kept, hframes, ?_, ?_⟩
  · rw [hc'', length_cutRequired, hopen, h.requirements]
  · rw [hc'', hkept]

theorem popScope {owner : DeclHandle} (h : (c.pushScope owner).Adds table c') :
    c.Adds [] c'.popScope := by
  have hscopes : c'.scopes = ⟨owner, c.bindings.length⟩ :: c.scopes := h.scopes
  have hbindings : oldest c.bindings.length c'.bindings = c.bindings :=
    oldest_of_suffix (h.bindings ▸ List.suffix_append table c.bindings)
  refine ⟨h.toSameFrames.popScope, ?_, ?_⟩
  · simp only [Context.popScope, hscopes]
    exact h.requirements
  · simp only [Context.popScope, hscopes, hbindings, List.nil_append]

/-- **Leaving a frame removes what was added since it was entered.** -/
theorem leave (f : Frame) (h : (f.enter c).Adds table c') : c.Adds [] (f.leave c') := by
  cases f with
  | scope owner => exact h.popScope
  | template params constraint =>
    have hscope : (c.pushScope c.currentScope).Adds table
        { c' with templates := c'.templates.tail } :=
      ⟨⟨h.scopes, congrArg List.tail h.templates, h.oracle⟩, h.requirements, h.bindings⟩
    exact hscope.popScope
  | requirements =>
    have htail : c'.requirements.tail.length = c.requirements.length := by
      rw [List.length_tail, h.requirements]
      rfl
    have hscope : (c.pushScope c.currentScope).Adds table
        { c' with requirements := c'.requirements.tail } :=
      ⟨⟨h.scopes, h.templates, h.oracle⟩, htail, h.bindings⟩
    exact hscope.popScope

end Context.Adds

/-- A name that was just bound is found in the innermost scope. -/
theorem Context.lookupLocal?_bind {c : Context} {m n : NameHandle} {found : Option DeclHandle}
    (h : c.lookupLocal? m = .ok found) (d : DeclHandle) :
    (c.bind n d).lookupLocal? n = .ok (some d) := by
  have hstart : c.innermost.start ≤ c.bindings.length := by
    by_contra hlt
    rw [lookupLocal?, if_neg hlt] at h
    cases h
  have hnew : (c.bind n d).bindings = (n, d) :: c.bindings := rfl
  have hsame : (c.bind n d).innermost = c.innermost := rfl
  rw [lookupLocal?, hnew, hsame, List.length_cons, if_pos (Nat.le_succ_of_le hstart),
    Nat.succ_sub hstart, List.take_succ_cons, List.lookup_cons_self]

/-! ## Sessions -/

variable {ρ α β : Type}

/-- The second session has the bindings of the table besides, and the same state of the client. -/
structure Session.Adds (table : Table) (s s' : Session ρ) : Prop where
  context : s.context.Adds table s'.context
  client : s'.client = s.client

/-- The second session has besides the name bound in the innermost scope. -/
structure Session.Binds (n : NameHandle) (d : DeclHandle) (s s' : Session ρ) : Prop where
  adds : s.Adds [(n, d)] s'
  innermost : s'.context.lookupLocal? n = .ok (some d)

namespace Session

variable {s s' s'' : Session ρ} {table table' : Table} {n : NameHandle} {d : DeclHandle}

theorem Adds.refl (s : Session ρ) : s.Adds [] s :=
  ⟨.refl _, rfl⟩

theorem Adds.trans (h : s.Adds table s') (h' : s'.Adds table' s'') :
    s.Adds (table' ++ table) s'' :=
  ⟨h.context.trans h'.context, h'.client.trans h.client⟩

theorem Adds.withGraph (h : s.Adds table s') (g : Graph) : s.Adds table { s' with graph := g } :=
  ⟨h.context, h.client⟩

theorem Binds.withGraph (h : s.Binds n d s') (g : Graph) : s.Binds n d { s' with graph := g } :=
  ⟨h.adds.withGraph g, h.innermost⟩

/-- Binding a name that was looked up before. -/
theorem Adds.bind {m : NameHandle} {found : Option DeclHandle} (h : s.Adds [] s')
    (hm : s'.context.lookupLocal? m = .ok found) (g : Graph) :
    s.Binds n d { s' with graph := g, context := s'.context.bind n d } :=
  ⟨⟨h.context.bind n d, h.client⟩, Context.lookupLocal?_bind hm d⟩

end Session

/-! ## The names of declarations -/

section Names

variable {g g' : Graph} {n : NameHandle} {d : DeclHandle}

/-- A declaration is built with the name that it was given. -/
theorem Build.name_decl (n : NameHandle) (form : DeclForm) (g : Graph) :
    (Graph.decl (decl n form g).2 (decl n form g).1).name = n :=
  congrArg Decl.name ((getD_push g.decls _ default _).trans (if_pos rfl))

theorem Build.name_functionDecl {params : List DeclHandle} {ret : TypeHandle}
    (h : functionDecl n params ret g = (.ok d, g')) : (g'.decl d).name = n := by
  rw [functionDecl] at h
  rcases ht : functionType params ret g with ⟨e | t, g₁⟩
  · rw [Attempt.bind_of_error ht] at h
    cases h
  · rw [Attempt.bind_of_ok ht] at h
    cases h
    exact name_decl n _ g₁

/-- Placing a declaration renames nothing. -/
theorem Build.name_setContext (x context : DeclHandle) (g : Graph) (d : DeclHandle) :
    (Graph.decl (setContext x context g).2 d).name = (g.decl d).name := by
  rcases g.decl_modify x (fun decl => { decl with context := some context }) d with h | ⟨-, h⟩
  · exact congrArg Decl.name h
  · exact (congrArg Decl.name h :)

theorem Build.name_setContexts (xs : List DeclHandle) (context : DeclHandle) (g : Graph)
    (d : DeclHandle) : (Graph.decl (setContexts xs context g).2 d).name = (g.decl d).name := by
  induction xs generalizing g with
  | nil => rfl
  | cons x xs ih => exact (ih _).trans (name_setContext x context g d)

end Names

namespace Action

/-! ## Actions that add to the innermost frame -/

/-- Whatever the action does, it adds to the innermost frame, and it leaves the client alone. -/
def Inside (x : Action ρ α) : Prop :=
  ∀ s : Session ρ, ∃ table, s.Adds table (x s).2

variable {s₀ s : Session ρ} {x : Action ρ α} {f : α → Action ρ β}

theorem Inside.bind (hx : Inside x) (hf : ∀ a, Inside (f a)) : Inside (x >>= f) := by
  intro s
  obtain ⟨table, h⟩ := hx s
  rcases hxs : x s with ⟨e | a, s'⟩
  · rw [hxs] at h
    rw [bind_of_error hxs]
    exact ⟨table, h⟩
  · rw [hxs] at h
    obtain ⟨table', h'⟩ := hf a s'
    rw [bind_of_ok hxs]
    exact ⟨_, h.trans h'⟩

theorem Inside.of_outcome {Q : Session ρ → α → Session ρ → Prop}
    (h : ∀ s, Outcome (s.Adds []) s x (Q s)) (hQ : ∀ s a s', Q s a s' → ∃ table, s.Adds table s') :
    Inside x := by
  intro s
  have hend := h s
  rcases hxs : x s with ⟨e | a, s'⟩
  · rw [Outcome, hxs] at hend
    exact ⟨[], hend⟩
  · exact hQ s a s' (hend.of_ok hxs)

/-- An action that adds nothing. -/
theorem Outcome.of_adds (h : s₀.Adds [] s) (hx : s.Adds [] (x s).2) :
    Outcome (s₀.Adds []) s x fun _ s' => s₀.Adds [] s' := by
  rcases hxs : x s with ⟨e | a, s'⟩
  · rw [hxs] at hx
    rw [Outcome, hxs]
    exact h.trans hx
  · rw [hxs] at hx
    rw [Outcome, hxs]
    exact h.trans hx

/-- However the action ends, nothing was added. -/
theorem Outcome.adds (h : Outcome (s.Adds []) s x fun _ s' => s.Adds [] s') :
    s.Adds [] (x s).2 := by
  rcases hxs : x s with ⟨e | a, s'⟩
  · rwa [Outcome, hxs] at h
  · rwa [Outcome, hxs] at h

/-- An action that does not see the scopes adds nothing to them. -/
theorem Blind.adds (h : Blind x x)
    (hextends : (Course.extending s.context).Follows s x fun _ _ => True) : s.Adds [] (x s).2 :=
  ⟨.of_extends hextends.leads h.unchanged.2.1, h.unchanged.2.2⟩

/-- **Nothing of what the body adds is left after the frame.** -/
theorem Inside.within (f : Frame) (hx : Inside x) (s : Session ρ) :
    s.Adds [] (Action.within f x s).2 := by
  obtain ⟨table, h⟩ := hx { s with context := f.enter s.context }
  exact ⟨h.context.leave f, h.client⟩

/-! ## Names and declarations -/

theorem nameExpr_outcome (n : NameHandle) (s : Session ρ) :
    Outcome (s.Adds []) s (nameExpr n) fun _ s' => s.Adds [] s' := by
  have hstart := Session.Adds.refl s
  refine .context_bind ?_
  split
  · exact .graph_bind (.throw _ hstart)
  · refine .graph_bind ?_
    split
    all_goals first
      | exact .throw _ hstart
      | exact .construct hstart.withGraph fun _ g _ => hstart.withGraph g

/-- A declaration that fails binds nothing. -/
theorem declare_outcome {Q : Unit → Session ρ → Prop} {E : Session ρ → Prop} (d : DeclHandle)
    (hE : E s)
    (hQ : s.context.lookupLocal? (s.graph.decl d).name = .ok none → Q () { s with
      graph := (Build.setContext d s.context.currentScope s.graph).2
      context := s.context.bind (s.graph.decl d).name d }) :
    Outcome E s (declare d) Q := by
  cases h : s.context.lookupLocal? (s.graph.decl d).name with
  | error m =>
    rw [Outcome, declare_of_stale h]
    exact hE
  | ok found =>
    cases found with
    | none =>
      rw [Outcome, declare_of_free h]
      exact hQ h
    | some earlier =>
      rw [Outcome, declare_of_bound h]
      exact hE

theorem declare_binds (h : s₀.Adds [] s) (d : DeclHandle) :
    Outcome (s₀.Adds []) s (declare d) fun _ s' =>
      s₀.Binds (s.graph.decl d).name d s' ∧ ∀ x, (s'.graph.decl x).name = (s.graph.decl x).name :=
  declare_outcome d h fun hfree => ⟨h.bind hfree _, Build.name_setContext d _ s.graph⟩

theorem Inside.declareAll (ds : List DeclHandle) :
    Inside (Action.declareAll ds : Action ρ Unit) := by
  induction ds with
  | nil => exact fun s => ⟨[], .refl s⟩
  | cons d ds ih =>
    have hdeclare : Inside (Action.declare d : Action ρ Unit) :=
      .of_outcome (fun s => declare_binds (.refl s) d) fun _ _ _ h => ⟨_, h.1.adds⟩
    exact hdeclare.bind fun _ => ih

/-- The binding is undone if the variable cannot be initialized. -/
theorem variableDecl_outcome (n : NameHandle) (t : TypeHandle) (written : Option InitSyntax)
    (s : Session ρ) :
    Outcome (s.Adds []) s (variableDecl n t written) fun d s' => s.Binds n d s' := by
  refine .bind (R := fun d s' => s.Adds [] s' ∧ (s'.graph.decl d).name = n)
    (.build ⟨(Session.Adds.refl s).withGraph _, Build.name_decl n _ _⟩) fun d s₁ ⟨h₁, hn⟩ => ?_
  have hdeclare : Outcome (s.Adds []) s₁ (declare d) fun _ s' =>
      s.Binds n d s' ∧ s'.context = s₁.context.bind n d :=
    declare_outcome d h₁ fun hfree => by
      rw [hn] at hfree ⊢
      exact ⟨h₁.bind hfree _, rfl⟩
  refine .context_bind (.bind hdeclare fun _ s₂ ⟨h₂, hbound⟩ => ?_)
  refine .bind (R := fun _ s' => s.Binds n d s' ∧ s'.context = s₁.context.bind n d)
    (.build ⟨h₂.withGraph _, hbound⟩) fun r s₃ ⟨h₃, hbound⟩ => ?_
  cases r with
  | ok _ => exact .pure h₃
  | error e =>
    refine .bind (R := fun _ s' => s.Adds [] s') ?_ fun _ s₄ h₄ => .throw _ h₄
    rw [Outcome, restore_bound hbound]
    exact ⟨h₁.context, h₃.adds.client⟩

theorem functionDecl_outcome (n : NameHandle) (params : List DeclHandle) (ret : TypeHandle)
    (s : Session ρ) :
    Outcome (s.Adds []) s (functionDecl n params ret) fun d s' => s.Binds n d s' := by
  have hstart := Session.Adds.refl s
  refine .bind (R := fun d s' => s.Adds [] s' ∧ (s'.graph.decl d).name = n)
    (.construct hstart.withGraph fun d g h => ⟨hstart.withGraph g, Build.name_functionDecl h⟩)
    fun d s₁ ⟨h₁, hn⟩ => ?_
  refine .bind (declare_binds h₁ d) fun _ s₂ ⟨h₂, _⟩ => ?_
  rw [hn] at h₂
  exact .bind (R := fun _ s' => s.Binds n d s') (.build (h₂.withGraph _)) fun _ _ h₃ => .pure h₃

theorem classDecl_outcome (n : NameHandle) (s : Session ρ) :
    Outcome (s.Adds []) s (classDecl n) fun d s' => s.Binds n d s' := by
  refine .bind (R := fun d s' => s.Adds [] s' ∧ (s'.graph.decl d).name = n)
    (.build ⟨(Session.Adds.refl s).withGraph _, Build.name_decl n _ _⟩) fun d s₁ ⟨h₁, hn⟩ => ?_
  refine .bind (declare_binds h₁ d) fun _ s₂ ⟨h₂, _⟩ => ?_
  rw [hn] at h₂
  exact .pure h₂

/-! ## Declarations with a body -/

/-- A frame with a body, of which nothing is left. -/
theorem framed_outcome (f : Frame) (params : List DeclHandle) {body : Action ρ α}
    (hbody : Inside body) (s : Session ρ) :
    Outcome (s.Adds []) s (within f (declareAll params >>= fun _ => body)) fun _ s' =>
      s.Adds [] s' :=
  .of_adds (.refl s) (((Inside.declareAll params).bind fun _ => hbody).within f s)

theorem defineFunction_outcome (f : DeclHandle) {body : Action ρ StmtHandle}
    (hbody : Inside body) (s : Session ρ) :
    Outcome (s.Adds []) s (defineFunction f body) fun _ s' => s.Adds [] s' := by
  refine .graph_bind ?_
  split
  · next params _ _ =>
    refine .bind (framed_outcome (.scope f) params hbody s) fun stmt s₁ h₁ => ?_
    refine .bind (R := fun _ s' => s.Adds [] s') (.build (h₁.withGraph _)) fun _ s₂ h₂ => ?_
    exact .construct h₂.withGraph fun _ g _ => h₂.withGraph g
  · exact .throw _ (.refl s)

/-- The template is bound by the name that it takes from what it parameterizes. -/
theorem templateDecl_outcome (params : List DeclHandle) (constraint : Option ExprHandle)
    {pattern : Action ρ DeclHandle} (hpattern : Inside pattern) (s : Session ρ) :
    Outcome (s.Adds []) s (templateDecl params constraint pattern) fun d s' =>
      s.Binds (s'.graph.decl d).name d s' := by
  refine .bind (framed_outcome (.template params constraint) params hpattern s)
    fun pattern s₁ h₁ => ?_
  refine .bind (R := fun _ s' => s.Adds [] s') (.build (h₁.withGraph _)) fun d s₂ h₂ => ?_
  refine .bind (declare_binds h₂ d) fun _ s₃ ⟨h₃, hname⟩ => ?_
  rw [← hname d] at h₃
  refine .bind (R := fun _ s' => s.Binds (s'.graph.decl d).name d s') (.build ?_)
    fun _ s₄ h₄ => .bind (R := fun _ s' => s.Binds (s'.graph.decl d).name d s') (.build ?_)
      fun _ s₅ h₅ => .pure h₅
  · rw [Build.name_setContext]
    exact h₃.withGraph _
  · rw [Build.name_setContexts]
    exact h₄.withGraph _

theorem conceptDecl_outcome (n : NameHandle) (params : List DeclHandle)
    {definition : Action ρ ExprHandle} (hdefinition : Inside definition) (s : Session ρ) :
    Outcome (s.Adds []) s (conceptDecl n params definition) fun d s' => s.Binds n d s' := by
  refine .bind (framed_outcome (.template params none) params hdefinition s) fun e s₁ h₁ => ?_
  refine .bind (R := fun d s' => s.Adds [] s' ∧ (s'.graph.decl d).name = n)
    (.build ⟨h₁.withGraph _, Build.name_decl n _ _⟩) fun d s₂ ⟨h₂, hn⟩ => ?_
  refine .bind (declare_binds h₂ d) fun _ s₃ ⟨h₃, _⟩ => ?_
  rw [hn] at h₃
  exact .bind (R := fun _ s' => s.Binds n d s') (.build (h₃.withGraph _)) fun _ _ h₄ => .pure h₄

theorem requiresExpr_outcome (tparams params : List DeclHandle)
    {reqs : Action ρ (List ReqHandle)} (hreqs : Inside reqs) (s : Session ρ) :
    Outcome (s.Adds []) s (requiresExpr tparams params reqs) fun _ s' => s.Adds [] s' :=
  .bind (framed_outcome .requirements params hreqs s) fun _ _ h => .build (h.withGraph _)

end Action

/-! ## Programs in a frame -/

/-- The session has all that the context has, and its client has no marks from before. -/
structure Session.Above (c : Context) (s : Session (List Marks)) : Prop where
  context : ∃ table, c.Adds table s.context
  marks : ∀ m ∈ s.client, m.Spares c

namespace Action

/-- The action keeps all that the context has. -/
def Confined (c : Context) (x : Action (List Marks) α) : Prop :=
  ∀ s : Session (List Marks), s.Above c → (x s).2.Above c

namespace Confined

variable {c : Context} {x : Action (List Marks) α} {f : α → Action (List Marks) β}
  {k : Failure → Action (List Marks) α}

theorem of_inside (hx : Inside x) : Confined c x := by
  intro s hs
  obtain ⟨table, h⟩ := hs.context
  obtain ⟨table', h'⟩ := hx s
  refine ⟨⟨_, h.trans h'.context⟩, ?_⟩
  rw [h'.client]
  exact hs.marks

/-- What only looks keeps everything. -/
theorem of_same (hx : ∀ s, (x s).2 = s) : Confined c x :=
  fun s hs => by rwa [hx]

theorem bind (hx : Confined c x) (hf : ∀ a, Confined c (f a)) : Confined c (x >>= f) := by
  intro s hs
  have h := hx s hs
  rcases hxs : x s with ⟨e | a, s'⟩
  · rw [hxs] at h
    rwa [bind_of_error hxs]
  · rw [hxs] at h
    rw [bind_of_ok hxs]
    exact hf a s' h

theorem tryCatch (hx : Confined c x) (hk : ∀ e, Confined c (k e)) :
    Confined c (tryCatch x k) := by
  intro s hs
  have h := hx s hs
  rcases hxs : x s with ⟨e | a, s'⟩
  · rw [hxs] at h
    rw [tryCatch_of_error hxs]
    exact hk e s' h
  · rw [hxs] at h
    rwa [tryCatch_of_ok hxs]

theorem observe (hx : Confined c x) : Confined c (Action.observe x) := by
  intro s hs
  rw [observe_session]
  exact hx s hs

theorem restore {m : Marks} (hm : m.Spares c) : Confined c (Action.restore m) := by
  intro s hs
  obtain ⟨table, h⟩ := hs.context
  cases hr : s.context.restore m with
  | error e => rwa [restore_of_error hr]
  | ok c' =>
    rw [restore_of_ok hr]
    exact ⟨h.restore hm hr, hs.marks⟩

/-- Marks that are taken spare what was there before. -/
theorem marks_bind {f : Marks → Action (List Marks) β}
    (hf : ∀ m : Marks, m.Spares c → Confined c (f m)) :
    Confined c (Action.context >>= fun c' => f c'.marks) := by
  intro s hs
  obtain ⟨table, h⟩ := hs.context
  have hlength : c.bindings.length ≤ s.context.bindings.length := by
    rw [h.bindings, List.length_append]
    exact Nat.le_add_left _ _
  exact hf s.context.marks ⟨hlength, h.requirements.ge⟩ s hs

theorem trial (hx : Confined c x) : Confined c (Action.trial x) := by
  refine marks_bind (f := fun m => MonadExcept.tryCatch x fun e => do
    if e.isRecoverable then
      Action.restore m
    MonadExcept.throw e) fun m hm => tryCatch hx fun e => ?_
  cases e.isRecoverable with
  | true => exact bind (restore hm) fun _ => of_same fun _ => rfl
  | false => exact of_same fun _ => rfl

theorem takeMark : Confined c Action.takeMark := by
  refine marks_bind (f := fun m => modifyGet fun s =>
    (s.client.length, { s with client := s.client ++ [m] })) fun m hm s hs => ?_
  refine ⟨hs.context, fun m' hm' => ?_⟩
  rcases List.mem_append.1 hm' with h | h
  · exact hs.marks m' h
  · rw [List.mem_singleton.1 h]
    exact hm

theorem restoreMark (ticket : Nat) : Confined c (Action.restoreMark ticket) := by
  intro s hs
  cases hm : s.client[ticket]? with
  | none => rwa [restoreMark_of_none hm]
  | some m =>
    rw [restoreMark_of_some hm]
    exact restore (hs.marks m (List.mem_of_getElem? hm)) s hs

end Confined

/-- A body with marks of its own adds to the frame that it runs in. -/
theorem Inside.ownMarks {x : Action (List Marks) α} (hx : ∀ c, Confined c x) :
    Inside (Action.ownMarks x) := by
  intro s
  obtain ⟨table, h⟩ := (hx s.context { s with client := [] }
    ⟨⟨[], .refl _⟩, fun _ hm => nomatch hm⟩).context
  exact ⟨table, h, rfl⟩

end Action

/-- **A program of a client keeps all that was there** when the frame was entered that it runs
in. -/
theorem ClientProgram.confined (p : ClientProgram α) (c : Context) :
    Action.Confined c p.run := by
  induction p generalizing c with
  | pure a => exact .of_same fun _ => rfl
  | bind p f ihp ihf => exact .bind (ihp c) fun a => ihf a c
  | fail e => exact .of_same fun _ => rfl
  | abandon => exact .of_same fun _ => rfl
  | observe p ih => exact .observe (ih c)
  | look => exact .of_same fun _ => rfl
  | build x => exact .of_inside fun s => ⟨[], (Session.Adds.refl s).withGraph _⟩
  | changeQueue k => exact .of_inside fun s => ⟨[], ⟨⟨rfl, rfl, rfl⟩, rfl, rfl⟩, rfl⟩
  | reportError d =>
    exact .of_inside fun s => ⟨[], (Action.Blind.reportError d).adds
      (Course.extending.reportError (.refl _) d)⟩
  | setLocation span => exact .of_inside fun s => ⟨[], ⟨⟨rfl, rfl, rfl⟩, rfl, rfl⟩, rfl⟩
  | currentScope => exact .of_same fun _ => rfl
  | depth => exact .of_same fun _ => rfl
  | bindName n d => exact .of_inside fun s => ⟨_, (Context.Adds.refl s.context).bind n d, rfl⟩
  | lookup n => exact .of_same fun _ => rfl
  | lookupLocal n =>
    refine .of_same fun s => ?_
    change (Action.lookupLocal? n s).2 = s
    rw [Action.lookupLocal?, Action.context_bind]
    cases s.context.lookupLocal? n <;> rfl
  | require e =>
    exact .of_inside fun s => ⟨[], (Action.Blind.require e).adds
      (Course.extending.require (.refl _) e)⟩
  | mark => exact .takeMark
  | restore ticket => exact .restoreMark ticket
  | trial p ih => exact .trial (ih c)
  | within f p ih => exact .of_inside fun s => ⟨[], (Action.Inside.ownMarks ih).within f s⟩
  | nameExpr n => exact .of_inside (.of_outcome (Action.nameExpr_outcome n) fun _ _ _ h => ⟨_, h⟩)
  | call callee args =>
    exact .of_inside fun s =>
      ⟨[], (Action.Blind.call callee args).adds
        (Course.extending.call (.refl _) callee args)⟩
  | variableDecl n t written =>
    exact .of_inside (.of_outcome (Action.variableDecl_outcome n t written)
      fun _ _ _ h => ⟨_, h.adds⟩)
  | functionDecl n params ret =>
    exact .of_inside (.of_outcome (Action.functionDecl_outcome n params ret)
      fun _ _ _ h => ⟨_, h.adds⟩)
  | classDecl n =>
    exact .of_inside (.of_outcome (Action.classDecl_outcome n) fun _ _ _ h => ⟨_, h.adds⟩)
  | defineFunction f body ih =>
    exact .of_inside (.of_outcome (Action.defineFunction_outcome f (.ownMarks ih))
      fun _ _ _ h => ⟨_, h⟩)
  | templateDecl params constraint pattern ih =>
    exact .of_inside (.of_outcome (Action.templateDecl_outcome params constraint (.ownMarks ih))
      fun _ _ _ h => ⟨_, h.adds⟩)
  | conceptDecl n params definition ih =>
    exact .of_inside (.of_outcome (Action.conceptDecl_outcome n params (.ownMarks ih))
      fun _ _ _ h => ⟨_, h.adds⟩)
  | requiresExpr tparams params reqs ih =>
    exact .of_inside (.of_outcome (Action.requiresExpr_outcome tparams params (.ownMarks ih))
      fun _ _ _ h => ⟨_, h⟩)

/-! ## Constructs -/

/-- The constructs that use or change the stacks of the context, with any programs as bodies. -/
inductive Construct : Type → Type 1
  | nameExpr (n : NameHandle) : Construct ExprHandle
  | call (callee : ExprHandle) (args : List ExprHandle) : Construct ExprHandle
  | variableDecl (n : NameHandle) (t : TypeHandle) (written : Option InitSyntax) :
    Construct DeclHandle
  | functionDecl (n : NameHandle) (params : List DeclHandle) (ret : TypeHandle) :
    Construct DeclHandle
  | classDecl (n : NameHandle) : Construct DeclHandle
  | defineFunction (f : DeclHandle) (body : ClientProgram StmtHandle) : Construct Unit
  | templateDecl (params : List DeclHandle) (constraint : Option ExprHandle)
    (pattern : ClientProgram DeclHandle) : Construct DeclHandle
  | conceptDecl (n : NameHandle) (params : List DeclHandle)
    (definition : ClientProgram ExprHandle) : Construct DeclHandle
  | requiresExpr (tparams params : List DeclHandle) (reqs : ClientProgram (List ReqHandle)) :
    Construct ExprHandle

namespace Construct

/-- The action that resolves the construct, as a program. -/
def program : {α : Type} → Construct α → ClientProgram α
  | _, nameExpr n => .nameExpr n
  | _, call callee args => .call callee args
  | _, variableDecl n t written => .variableDecl n t written
  | _, functionDecl n params ret => .functionDecl n params ret
  | _, classDecl n => .classDecl n
  | _, defineFunction f body => .defineFunction f body
  | _, templateDecl params constraint pattern => .templateDecl params constraint pattern
  | _, conceptDecl n params definition => .conceptDecl n params definition
  | _, requiresExpr tparams params reqs => .requiresExpr tparams params reqs

/-- What the construct declares: the name, and the declaration that is its result.  A template has
the name that it was given in the graph. -/
def declared : {α : Type} → Construct α → Graph → α → Option (NameHandle × DeclHandle)
  | _, nameExpr _, _, _ | _, call _ _, _, _ => none
  | _, variableDecl n _ _, _, d | _, functionDecl n _ _, _, d | _, classDecl n, _, d => some (n, d)
  | _, defineFunction _ _, _, _ => none
  | _, templateDecl _ _ _, g, d => some ((g.decl d).name, d)
  | _, conceptDecl n _ _, _, d => some (n, d)
  | _, requiresExpr _ _ _, _, _ => none

/-- The second session has the stacks of the first one, and the binding of what the construct
declared, in the innermost scope. -/
structure Leaves (x : Construct α) (s : Session (List Marks)) (a : α)
    (s' : Session (List Marks)) : Prop where
  adds : s.context.Adds (x.declared s'.graph a).toList s'.context
  innermost : ∀ b, x.declared s'.graph a = some b → s'.context.lookupLocal? b.1 = .ok (some b.2)

theorem Leaves.of_adds {x : Construct α} {s s' : Session (List Marks)} {a : α}
    (hx : x.declared s'.graph a = none) (h : s.Adds [] s') : x.Leaves s a s' := by
  refine ⟨?_, fun b hb => ?_⟩
  · rw [hx]
    exact h.context
  · rw [hx] at hb
    cases hb

theorem Leaves.of_binds {x : Construct α} {s s' : Session (List Marks)} {a : α} {n : NameHandle}
    {d : DeclHandle} (hx : x.declared s'.graph a = some (n, d)) (h : s.Binds n d s') :
    x.Leaves s a s' := by
  refine ⟨?_, fun b hb => ?_⟩
  · rw [hx]
    exact h.adds.context
  · rw [hx] at hb
    cases hb
    exact h.innermost

theorem outcome_run (x : Construct α) (s : Session (List Marks)) :
    Action.Outcome (s.Adds []) s x.program.run (x.Leaves s) := by
  have hbody : ∀ {β : Type} (p : ClientProgram β), Action.Inside (Action.ownMarks p.run) :=
    fun p => .ownMarks p.confined
  cases x with
  | nameExpr n => exact (Action.nameExpr_outcome n s).mono fun _ _ => .of_adds rfl
  | call callee args =>
    exact (Action.Outcome.of_adds (.refl s) ((Action.Blind.call callee args).adds
      (Course.extending.call (.refl _) callee args))).mono fun _ _ => .of_adds rfl
  | variableDecl n t written =>
    exact (Action.variableDecl_outcome n t written s).mono fun _ _ => .of_binds rfl
  | functionDecl n params ret =>
    exact (Action.functionDecl_outcome n params ret s).mono fun _ _ => .of_binds rfl
  | classDecl n => exact (Action.classDecl_outcome n s).mono fun _ _ => .of_binds rfl
  | defineFunction f body =>
    exact (Action.defineFunction_outcome f (hbody body) s).mono fun _ _ => .of_adds rfl
  | templateDecl params constraint pattern =>
    exact (Action.templateDecl_outcome params constraint (hbody pattern) s).mono
      fun _ _ => .of_binds rfl
  | conceptDecl n params definition =>
    exact (Action.conceptDecl_outcome n params (hbody definition) s).mono fun _ _ => .of_binds rfl
  | requiresExpr tparams params reqs =>
    exact (Action.requiresExpr_outcome tparams params (hbody reqs) s).mono fun _ _ => .of_adds rfl

/-- **An action with any bodies leaves the stacks as they were**, but for the binding of what it
declared.  If it fails, for whatever reason and wherever in it, the open scopes, the bindings, the
enclosing templates and the number of the enclosing requires-expressions are as before.  If it
succeeds, they are as before with one more binding if something was declared: of the name to the
declaration that is returned, in the innermost scope. -/
theorem run_stacks (x : Construct α) (s : Session (List Marks)) :
    match x.program.run s with
    | (.error _, s') => s.context.Adds [] s'.context
    | (.ok a, s') => x.Leaves s a s' := by
  have hends := x.outcome_run s
  rw [Action.Outcome] at hends
  rcases hrun : x.program.run s with ⟨e | a, s'⟩
  · rw [hrun] at hends
    exact hends.context
  · rw [hrun] at hends
    exact hends

end Construct
end SemanticCore
