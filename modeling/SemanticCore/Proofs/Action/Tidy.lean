import SemanticCore.Proofs.Action.Declaring
import SemanticCore.Proofs.Action.Proper
import SemanticCore.Proofs.Action.Tabled

/-!
# Scopes in which every name is declared once

Names are bound by declaring them, declarations keep their names, and marks are restored in the
frame that they were taken in.  Then a scope never holds two bindings of one name, and a name is
bound to a declaration of that name, however declaring actions, bodies, frames and trials are mixed
and wherever they fail.  `Session.Tidy T s` says so of a session whose scopes are the tables `T`.

What a program does to the scopes it does to the innermost table: a binding of a name that is new to
it is added, or it is cut.  The frames that the program enters have tables of their own, and nothing
is left of them afterwards.  `Session.Reached` are the sessions that a client gets to, inside bodies
and outside.

* `ClientProgram.tidy` — **a program keeps a session tidy.**
* `Session.Reached.declared_once` — so every session that is reached is tidy, and declaring a name
  there fails because of an earlier declaration exactly if the innermost table binds the name to it.
-/

set_option autoImplicit false
namespace SemanticCore

open SemanticCore.Graph

/-! ## Tables -/

/-- The tables of the open scopes, the innermost first. -/
def ScopeTables.tables (T : ScopeTables) : List Table :=
  T.inner.map (·.table) ++ [T.global]

/-- No name is bound twice in the table. -/
def Table.Distinct (t : Table) : Prop :=
  (t.map Prod.fst).Nodup

namespace Table

variable {t : Table} {n : NameHandle} {d : DeclHandle}

theorem Distinct.cons (h : t.Distinct) (hn : t.lookup n = none) :
    Distinct ((n, d) :: t) := by
  refine List.nodup_cons.2 ⟨fun hmem => ?_, h⟩
  obtain ⟨b, hb, rfl⟩ := List.mem_map.1 hmem
  exact bne_iff_ne.1 (List.lookup_eq_none_iff.1 hn b hb) rfl

/-- What is cut has no name twice either. -/
theorem Distinct.oldest (h : t.Distinct) (k : Nat) : Distinct (Context.oldest k t) :=
  h.sublist ((List.drop_sublist _ t).map _)

/-- In a table without a name twice, what is found is what is there. -/
theorem Distinct.lookup_eq_some_iff (h : t.Distinct) : t.lookup n = some d ↔ (n, d) ∈ t := by
  induction t with
  | nil => simp
  | cons b t ih =>
    obtain ⟨m, x⟩ := b
    obtain ⟨hm, ht⟩ := List.nodup_cons.1 h
    rw [List.mem_cons, Prod.mk.injEq]
    by_cases hnm : n = m
    · subst hnm
      have hnot : (n, d) ∉ t := fun hmem => hm (List.mem_map.2 ⟨_, hmem, rfl⟩)
      rw [List.lookup_cons_self, Option.some.injEq]
      exact ⟨fun hx => .inl ⟨rfl, hx.symm⟩, fun hx => (hx.resolve_right hnot).2.symm⟩
    · rw [List.lookup_cons, beq_false_of_ne hnm, ih ht]
      exact ⟨.inr, fun hx => hx.resolve_left fun hx => hnm hx.1⟩

end Table

namespace ScopeTables

variable {T : ScopeTables}

theorem tables_eq (T : ScopeTables) : T.tables = T.current :: T.tables.tail := by
  obtain ⟨inner, global⟩ := T
  cases inner <;> rfl

theorem tables_withCurrent (table : Table) :
    (T.withCurrent table).tables = table :: T.tables.tail := by
  obtain ⟨inner, global⟩ := T
  cases inner <;> rfl

theorem current_mem_tables : T.current ∈ T.tables := by
  rw [tables_eq]
  exact List.mem_cons_self

/-- A property of all tables is one of the new innermost table, and of those around it. -/
theorem forall_tables_withCurrent {P : Table → Prop} (h : ∀ t ∈ T.tables, P t) {table : Table}
    (ht : P table) : ∀ t ∈ (T.withCurrent table).tables, P t := by
  rw [tables_withCurrent]
  rw [tables_eq] at h
  exact List.forall_mem_cons.2 ⟨ht, (List.forall_mem_cons.1 h).2⟩

theorem length_beneath_le : T.beneath.length ≤ T.bindings.length := by
  rw [bindings_eq, List.length_append]
  exact Nat.le_add_left _ _

end ScopeTables

/-! ## Tidy sessions -/

variable {α β ρ : Type}

/-- The tables are those of the open scopes, none of them binds a name twice, and what a name is
bound to is a declaration with that name. -/
structure Session.Tidy (T : ScopeTables) (s : Session ρ) : Prop where
  scopes : s.context.scopes = T.scopes
  bindings : s.context.bindings = T.bindings
  distinct : ∀ t ∈ T.tables, t.Distinct
  named : ∀ b ∈ T.bindings, s.graph.contains b.2 = true ∧ (s.graph.decl b.2).name = b.1

/-- The session is tidy with some table in place of the innermost one. -/
def Session.TidyOver (T : ScopeTables) (s : Session ρ) : Prop :=
  ∃ table, s.Tidy (T.withCurrent table)

namespace Session

variable {s s' : Session ρ} {T : ScopeTables} {n : NameHandle} {d : DeclHandle}

theorem Tidy.over (h : s.Tidy T) : s.TidyOver T :=
  ⟨T.current, T.withCurrent_current.symm ▸ h⟩

theorem TidyOver.of_withCurrent {table : Table} (h : s.TidyOver (T.withCurrent table)) :
    s.TidyOver T := by
  obtain ⟨table', h'⟩ := h
  exact ⟨table', T.withCurrent_withCurrent table table' ▸ h'⟩

namespace Tidy

theorem context_eq (h : s.Tidy T) : s.context = s.context.withTables T := by
  rw [Context.withTables, ← h.scopes, ← h.bindings]

theorem lookupLocal?_eq (h : s.Tidy T) (n : NameHandle) :
    s.context.lookupLocal? n = .ok (T.current.lookup n) := by
  rw [h.context_eq]
  exact Context.lookupLocal?_withTables n

theorem lookupLocal?_iff (h : s.Tidy T) :
    s.context.lookupLocal? n = .ok (some d) ↔ (n, d) ∈ T.current := by
  rw [h.lookupLocal?_eq, Except.ok.injEq]
  exact (h.distinct _ T.current_mem_tables).lookup_eq_some_iff

theorem named_extend (h : s.Tidy T) {g : Graph} (hext : s.graph.Extends g) :
    ∀ b ∈ T.bindings, g.contains b.2 = true ∧ (g.decl b.2).name = b.1 := by
  intro b hb
  obtain ⟨hc, hn⟩ := h.named b hb
  exact ⟨hext.contains hc, (hext.decl hc).name.trans hn⟩

/-! ### What can happen to the innermost table -/

/-- Without new bindings the tables stay as they are. -/
theorem of_adds (h : s.Tidy T) (hadds : s.context.Adds [] s'.context)
    (hext : s.graph.Extends s'.graph) : s'.TidyOver T :=
  Tidy.over ⟨hadds.scopes.trans h.scopes, hadds.bindings.trans h.bindings, h.distinct,
    h.named_extend hext⟩

/-- **A name that the innermost table does not have can be added to it.** -/
theorem bind (h : s.Tidy T) (hfree : s.context.lookupLocal? n = .ok none)
    (hscopes : s'.context.scopes = s.context.scopes)
    (hbindings : s'.context.bindings = (n, d) :: s.context.bindings)
    (hext : s.graph.Extends s'.graph) (hd : s'.graph.contains d = true)
    (hn : (s'.graph.decl d).name = n) : s'.Tidy (T.bind n d) where
  scopes := by rw [hscopes, h.scopes, ScopeTables.bind, ScopeTables.scopes_withCurrent]
  bindings := by rw [hbindings, h.bindings, ScopeTables.bindings_bind]
  distinct := by
    have hnone : T.current.lookup n = none := Except.ok.inj ((h.lookupLocal?_eq n).symm.trans hfree)
    exact T.forall_tables_withCurrent h.distinct ((h.distinct _ T.current_mem_tables).cons hnone)
  named := by
    rw [ScopeTables.bindings_bind]
    exact List.forall_mem_cons.2 ⟨⟨hd, hn⟩, h.named_extend hext⟩

/-- Marks that were taken in the innermost frame cut its table. -/
theorem restore (h : s.Tidy T) {m : Marks} (hm : T.beneath.length ≤ m.bindings) :
    (Action.restore m s).2.TidyOver T := by
  cases hr : s.context.restore m with
  | error e =>
    rw [Action.restore_of_error hr]
    exact h.over
  | ok c =>
    obtain ⟨k, hk⟩ := Nat.exists_eq_add_of_le hm
    have hcut : c.bindings = (T.cut k).bindings := by
      rw [Context.eq_of_restore hr, ← T.oldest_bindings, ← hk, ← h.bindings]
    have hkept : (T.cut k).bindings ⊆ T.bindings := by
      rw [← T.oldest_bindings]
      exact List.drop_subset _ _
    rw [Action.restore_of_ok hr]
    refine ⟨Context.oldest k T.current, ?_, hcut, ?_, fun b hb => h.named b (hkept hb)⟩
    · exact ((Context.SameFrames.restore hr).scopes.trans h.scopes).trans
        (T.scopes_withCurrent _).symm
    · exact T.forall_tables_withCurrent h.distinct ((h.distinct _ T.current_mem_tables).oldest k)

/-- A frame begins with an empty table. -/
theorem enter (h : s.Tidy T) (f : Frame) : (s.enter f.enter).Tidy (T.push (f.owner T)) := by
  have hctx : f.enter s.context = (f.enterRest s.context).withTables (T.push (f.owner T)) := by
    rw [← f.enter_withTables, ← h.context_eq]
  refine ⟨congrArg Context.scopes hctx, congrArg Context.bindings hctx, ?_, h.named⟩
  exact List.forall_mem_cons.2 ⟨.nil, h.distinct⟩

/-! ### Sequencing -/

theorem run_bind {x : Action ρ α} {f : α → Action ρ β} (hx : (x s).2.TidyOver T)
    (hf : ∀ a s₁ table, x s = (.ok a, s₁) → s₁.Tidy (T.withCurrent table) →
      (f a s₁).2.TidyOver (T.withCurrent table)) :
    ((x >>= f) s).2.TidyOver T := by
  rcases hrun : x s with ⟨e | a, s₁⟩
  · rw [hrun] at hx
    rwa [Action.bind_of_error hrun]
  · rw [hrun] at hx
    obtain ⟨table, h₁⟩ := hx
    rw [Action.bind_of_ok hrun]
    exact (hf a s₁ table hrun h₁).of_withCurrent

theorem run_trial (h : s.Tidy T) {x : Action ρ α} (hx : (x s).2.TidyOver T) :
    (Action.trial x s).2.TidyOver T := by
  rcases Action.trial_session x s with heq | heq
  · rwa [heq]
  · obtain ⟨table, h₁⟩ := hx
    have hmark : (T.withCurrent table).beneath.length ≤ s.context.marks.bindings := by
      rw [T.beneath_withCurrent, Context.marks, h.bindings]
      exact T.length_beneath_le
    rw [heq]
    exact (h₁.restore hmark).of_withCurrent

/-! ### Declaring -/

/-- **What a declaring action leaves is tidy**, whether or not it succeeds. -/
theorem declares (h : s.Tidy T) {x : Action ρ DeclHandle} (hx : Action.Declares n s x)
    (hext : s.graph.Extends (x s).2.graph) : (x s).2.TidyOver T := by
  obtain ⟨d, s₁, hadds, hd, hn, hends⟩ := hx
  generalize x s = ending at hends hext
  cases hends with
  | stale _ => exact h.of_adds hadds.context hext
  | bound _ => exact h.of_adds hadds.context hext
  | declared hfree hg =>
    rw [hadds.context.lookupLocal?_eq] at hfree
    exact ⟨_, h.bind hfree hadds.context.scopes
      (congrArg ((n, d) :: ·) hadds.context.bindings) hext (hg.contains hd)
      ((hg.decl hd).name.trans hn)⟩
  | undone _ _ _ => exact h.of_adds hadds.context hext

theorem mayDeclare (h : s.Tidy T) {x : Action ρ DeclHandle} (hx : Action.MayDeclare s x)
    (hext : s.graph.Extends (x s).2.graph) : (x s).2.TidyOver T := by
  rcases hx with hadds | ⟨n, hx⟩
  · exact h.of_adds hadds.context hext
  · exact h.declares hx hext

theorem declare (h : s.Tidy T) (hd : s.graph.contains d = true) :
    (Action.declare d s).2.TidyOver T := by
  cases hl : T.current.lookup (s.graph.decl d).name with
  | some earlier =>
    rw [Action.declare_of_bound ((h.lookupLocal?_eq _).trans (congrArg Except.ok hl))]
    exact h.over
  | none =>
    have hfree := (h.lookupLocal?_eq (s.graph.decl d).name).trans (congrArg Except.ok hl)
    have hext := extends_setContext d s.context.currentScope s.graph
    rw [Action.declare_of_free hfree]
    exact ⟨_, h.bind hfree rfl rfl hext (hext.contains hd) (hext.decl hd).name⟩

theorem declareAll {ds : List DeclHandle} (hs : s.Fits) (h : s.Tidy T)
    (hds : ∀ d ∈ ds, s.graph.contains d = true) : (Action.declareAll ds s).2.TidyOver T := by
  induction ds generalizing s T with
  | nil => exact h.over
  | cons d ds ih =>
    obtain ⟨hd, hds⟩ := List.forall_mem_cons.1 hds
    have hleads := (Course.Follows.declare Course.growing.declares hs (d := d) trivial).leads
    refine run_bind (f := fun _ => Action.declareAll ds) (h.declare hd) fun u s₁ table hrun h₁ => ?_
    rw [hrun] at hleads
    exact ih (hleads.fits hs) h₁ fun x hx => hleads.grows.contains (hds x hx)

end Tidy
end Session

/-! ## Programs -/

open Session.Tidy in
/-- **A program keeps a session tidy**, and touches the innermost table only. -/
theorem ClientProgram.tidy (p : ClientProgram α) {s : Session (List Marks)} {T : ScopeTables}
    {c : Context} (hs : s.Fits) (hp : p.Proper s) (hc : s.Above c)
    (hlen : c.bindings.length = T.beneath.length) (h : s.Tidy T) : (p.run s).2.TidyOver T := by
  have hbody : ∀ {β : Type} (p : ClientProgram β), Action.Inside (Action.ownMarks p.run) :=
    fun p => .ownMarks p.confined
  have hext := (p.grows hs hp).leads.grows.extends
  induction p generalizing s T with
  | bind p f ihp ihf =>
    have hleads := (p.grows hs hp.1).leads
    have habove := p.confined c s hc
    refine run_bind (ihp hs hp.1 hc hlen h hleads.grows.extends) fun a s₁ table hrun h₁ => ?_
    rw [hrun] at hleads habove
    have hfits := hleads.fits hs
    have hf := hp.2 a s₁ hrun
    exact ihf a hfits hf habove (by rw [hlen, T.beneath_withCurrent]) h₁
      ((f a).grows hfits hf).leads.grows.extends
  | observe p ih =>
    rw [run, Action.observe_session]
    exact ih hs hp hc hlen h (p.grows hs hp).leads.grows.extends
  | trial p ih => exact h.run_trial (ih hs hp hc hlen h (p.grows hs hp).leads.grows.extends)
  | restore ticket =>
    rw [run]
    cases hm : s.client[ticket]? with
    | none =>
      rw [Action.restoreMark_of_none hm]
      exact h.over
    | some m =>
      rw [Action.restoreMark_of_some hm]
      exact h.restore (hlen ▸ (hc.marks m (List.mem_of_getElem? hm)).bindings)
  | bindName n d => exact hp.elim
  | variableDecl n t written => exact h.declares (Action.declares_variableDecl n t written s) hext
  | classDecl n => exact h.declares (Action.declares_classDecl n s) hext
  | functionDecl n params ret =>
    exact h.mayDeclare (Action.mayDeclare_functionDecl n params ret s) hext
  | templateDecl params constraint pattern ih =>
    exact h.mayDeclare (Action.mayDeclare_templateDecl params constraint (hbody pattern) s) hext
  | conceptDecl n params definition ih =>
    exact h.mayDeclare (Action.mayDeclare_conceptDecl n params (hbody definition) s) hext
  | defineFunction f body ih =>
    exact h.of_adds (Action.defineFunction_outcome f (hbody body) s).adds.context hext
  | requiresExpr tparams params reqs ih =>
    exact h.of_adds (Action.requiresExpr_outcome tparams params (hbody reqs) s).adds.context hext
  | within f p ih => exact h.of_adds ((hbody p).within f s).context hext
  | nameExpr n => exact h.of_adds (Action.nameExpr_outcome n s).adds.context hext
  | call callee args =>
    have hadds := (Action.Blind.call callee args).adds
      (Course.extending.call (.refl s.context) callee args)
    exact h.of_adds hadds.context hext
  | require e =>
    have hadds := (Action.Blind.require e).adds (Course.extending.require (.refl s.context) e)
    exact h.of_adds hadds.context hext
  | reportError d =>
    have hadds := (Action.Blind.reportError d).adds
      (Course.extending.reportError (.refl s.context) d)
    exact h.of_adds hadds.context hext
  | lookupLocal n =>
    have hrun : Action.lookupLocal? n s = (.ok (T.current.lookup n), s) := by
      rw [Action.lookupLocal?, Action.context_bind, h.lookupLocal?_eq]
      rfl
    rw [run, hrun]
    exact h.over
  | changeQueue k => exact h.of_adds ⟨⟨rfl, rfl, rfl⟩, rfl, rfl⟩ hext
  | setLocation span => exact h.of_adds ⟨⟨rfl, rfl, rfl⟩, rfl, rfl⟩ hext
  | build x => exact h.of_adds (.refl _) hext
  | _ => exact h.of_adds (.refl _) hext

/-! ## Sessions that are reached -/

/-- The sessions that a client gets to in a translation unit: at its start, after a program whether
or not it has failed, and in a frame with some declarations as parameters, where the body that the
frame is entered for may begin or the next parameter be declared. -/
inductive Session.Reached : Session (List Marks) → Prop
  | fresh (config : Config) (symbols : SymbolTable) {oracle : Oracle}
    (ho : oracle.Fits (config.newGraph symbols)) :
    Reached ⟨config.newGraph symbols, .initial config oracle, []⟩
  | run {α : Type} {s : Session (List Marks)} (h : Reached s) {p : ClientProgram α}
    (hp : p.Proper s) : Reached (p.run s).2
  | frame {s s₁ : Session (List Marks)} (h : Reached s) {f : Frame} (hf : f.Fits s.graph)
    {params : List DeclHandle} (hparams : ∀ d ∈ params, s.graph.contains d = true)
    (hbegins : Action.Begins f.enter params s s₁) : Reached s₁.unmarked

/-- The session fits its graph, its scopes are tidy, and its marks are those of the innermost
frame. -/
structure Session.Orderly (T : ScopeTables) (s : Session (List Marks)) : Prop where
  fits : s.Fits
  tidy : s.Tidy T
  above : ∃ c, s.Above c ∧ c.bindings.length = T.beneath.length

namespace Session

variable {s s₁ : Session (List Marks)} {T : ScopeTables}

theorem Orderly.run (h : s.Orderly T) {p : ClientProgram α} (hp : p.Proper s) :
    ∃ table, (p.run s).2.Orderly (T.withCurrent table) := by
  obtain ⟨c, hc, hlen⟩ := h.above
  obtain ⟨table, htidy⟩ := p.tidy h.fits hp hc hlen h.tidy
  exact ⟨table, (p.grows h.fits hp).leads.fits h.fits, htidy, c, p.confined c s hc,
    hlen.trans (congrArg List.length (T.beneath_withCurrent table).symm)⟩

theorem Orderly.frame (h : s.Orderly T) {f : Frame} (hf : f.Fits s.graph)
    {params : List DeclHandle} (hparams : ∀ d ∈ params, s.graph.contains d = true)
    (hbegins : Action.Begins f.enter params s s₁) :
    ∃ table, s₁.unmarked.Orderly ((T.push (f.owner T)).withCurrent table) := by
  have henter := h.fits.enter hf
  have hdeclared : Course.growing.Follows _ (Action.declareAll params) _ :=
    .declareAll Course.growing.declares (fun _ _ => trivial) henter
  have hleads := hdeclared.leads
  obtain ⟨table, htidy⟩ := (h.tidy.enter f).declareAll henter hparams
  obtain ⟨added, hadds⟩ := Action.Inside.declareAll params (s.enter f.enter)
  rw [hbegins] at hleads htidy hadds
  refine ⟨table, (hleads.fits henter).unmarked, ⟨htidy.scopes, htidy.bindings, htidy.distinct,
    htidy.named⟩, f.enter s.context, ⟨⟨added, hadds.context⟩, fun _ hm => nomatch hm⟩, ?_⟩
  rw [ScopeTables.beneath_withCurrent]
  exact congrArg List.length (h.tidy.enter f).bindings

/-- **Every session that is reached is tidy.** -/
theorem Reached.orderly (h : s.Reached) : ∃ T, s.Orderly T := by
  induction h with
  | fresh config symbols ho =>
    refine ⟨.empty, ⟨wellFormed_initial _ _, .initial config ho⟩, ⟨rfl, rfl, ?_, nofun⟩,
      .initial config _, ⟨⟨[], .refl _⟩, fun _ hm => nomatch hm⟩, rfl⟩
    exact List.forall_mem_cons.2 ⟨.nil, fun _ hm => nomatch hm⟩
  | run h hp ih =>
    obtain ⟨T, hT⟩ := ih
    obtain ⟨table, h'⟩ := hT.run hp
    exact ⟨_, h'⟩
  | frame h hf hparams hbegins ih =>
    obtain ⟨T, hT⟩ := ih
    obtain ⟨table, h'⟩ := hT.frame hf hparams hbegins
    exact ⟨_, h'⟩

end Session

/-! ## Declaring in such sessions -/

/-- The action, started in the session, gets to declaring the name. -/
inductive Action.Declaring (s : Session (List Marks)) (n : NameHandle) :
    {α : Type} → Action (List Marks) α → Prop
  /-- Parameters are declared as they are. -/
  | param {d : DeclHandle} (hn : (s.graph.decl d).name = n) : Declaring s n (declare d)
  | variableDecl (t : TypeHandle) (written : Option InitSyntax) :
    Declaring s n (variableDecl n t written)
  | functionDecl {params : List DeclHandle} (ret : TypeHandle)
    (hparams : ∀ p ∈ params, s.graph.objectParamType? p ≠ none) :
    Declaring s n (functionDecl n params ret)
  | classDecl : Declaring s n (classDecl n)
  /-- A template has the name of what it parameterizes, which is what its body returns. -/
  | templateDecl {params : List DeclHandle} {constraint : Option ExprHandle}
    {pattern : ClientProgram DeclHandle} {d : DeclHandle} {s₁ : Session (List Marks)}
    (hbody : within (.template params constraint)
      (declareAll params >>= fun _ => ownMarks pattern.run) s = (.ok d, s₁))
    (hn : (s₁.graph.decl d).name = n) :
    Declaring s n (templateDecl params constraint (ownMarks pattern.run))
  | conceptDecl {params : List DeclHandle} {definition : ClientProgram ExprHandle}
    {e : ExprHandle} {s₁ : Session (List Marks)}
    (hbody : within (.template params none)
      (declareAll params >>= fun _ => ownMarks definition.run) s = (.ok e, s₁)) :
    Declaring s n (conceptDecl n params (ownMarks definition.run))

theorem Action.Declaring.redefinition_iff {s : Session (List Marks)} {n : NameHandle}
    {x : Action (List Marks) α} (h : Declaring s n x) (earlier : DeclHandle) :
    (x s).1 = .error (.error (.type (.redefinition earlier))) ↔
      s.context.lookupLocal? n = .ok (some earlier) := by
  cases h with
  | param hn => rw [← hn, declare_redefinition_iff]
  | variableDecl t written => exact (declares_variableDecl n t written s).redefinition_iff earlier
  | functionDecl ret hparams =>
    have htypes := objectParamTypes_eq (map_eq_map_some hparams)
    have htype := Attempt.bind_of_ok (f := fun ts => liftM (Build.functionTypeOf ts ret)) htypes
    exact (declares_functionDecl htype).redefinition_iff earlier
  | classDecl => exact (declares_classDecl n s).redefinition_iff earlier
  | templateDecl hbody hn =>
    subst hn
    exact (declares_templateDecl (.ownMarks (ClientProgram.confined _)) hbody).redefinition_iff
      earlier
  | conceptDecl hbody =>
    exact (declares_conceptDecl (.ownMarks (ClientProgram.confined _)) hbody).redefinition_iff
      earlier

/-- **In every session that is reached, a scope binds no name twice, names are bound to
declarations with these names, and a name is redefined exactly if its scope has it.**  The scopes
are tables: none of them has two bindings of a name, and every binding is of the name that the
declaration has.  An action that gets to declaring a name fails because of an earlier declaration
exactly if the innermost table binds the name to it. -/
theorem Session.Reached.declared_once {s : Session (List Marks)} (h : s.Reached) :
    ∃ T : ScopeTables, s.context = s.context.withTables T ∧
      (∀ table ∈ T.tables, (table.map Prod.fst).Nodup) ∧
      (∀ b ∈ T.bindings, s.graph.contains b.2 = true ∧ (s.graph.decl b.2).name = b.1) ∧
      ∀ (α : Type) (x : Action (List Marks) α) (n : NameHandle), Action.Declaring s n x →
        ∀ d, (x s).1 = .error (.error (.type (.redefinition d))) ↔ (n, d) ∈ T.current := by
  obtain ⟨T, hT⟩ := h.orderly
  refine ⟨T, hT.tidy.context_eq, hT.tidy.distinct, hT.tidy.named, fun α x n hx d => ?_⟩
  rw [hx.redefinition_iff, hT.tidy.lookupLocal?_iff]

/-! ### A name in two scopes -/

/-- The start of a translation unit. -/
def Session.ofEmptyUnit : Session (List Marks) :=
  ⟨Config.newGraph default .empty, .initial default .structural, []⟩

/-- A class, and after it the trial of a variable with the same name. -/
def ClientProgram.classAndVariable : ClientProgram (Except Failure DeclHandle) :=
  .bind (.classDecl .globalName) fun _ => .observe (.trial (.variableDecl .globalName .bool none))

/-- In a scope inside of that, after a variable with the name of the class. -/
def Session.ofShadowedClass : Session (List Marks) :=
  let outer := (ClientProgram.classAndVariable.run Session.ofEmptyUnit).2
  let inner := (outer.enter (Frame.scope .globalNamespace).enter).unmarked
  ((ClientProgram.variableDecl .globalName .bool none).run inner).2

theorem Session.ofShadowedClass_reached : Session.ofShadowedClass.Reached := by
  have hvariable : ∀ {s : Session (List Marks)}, s.Fits →
      (ClientProgram.variableDecl .globalName .bool none).Proper s :=
    fun hs => ⟨hs.graph.globalName, hs.graph.contains_bool, nofun⟩
  have hstart : Session.ofEmptyUnit.Reached :=
    .fresh default .empty (Oracle.fits_structural (wellFormed_initial _ _))
  have hproper : ClientProgram.classAndVariable.Proper Session.ofEmptyUnit := by
    have hname : Session.ofEmptyUnit.graph.contains Handle.globalName = true :=
      (wellFormed_initial _ _).globalName
    refine ⟨hname, fun d s hrun => hvariable ?_⟩
    obtain ⟨T, hT⟩ := (hstart.run (p := .classDecl .globalName) hname).orderly
    rw [hrun] at hT
    exact hT.fits
  have houter := hstart.run hproper
  have hglobal : (Frame.scope .globalNamespace).Fits _ :=
    houter.orderly.choose_spec.fits.graph.globalNamespace
  have hinner := houter.frame hglobal (nofun : ∀ d ∈ ([] : List DeclHandle), _) rfl
  exact hinner.run (hvariable hinner.orderly.choose_spec.fits)

/-- The class is still bound, and the name cannot be declared again because of the variable, which
is bound in the innermost scope. -/
theorem Session.Reached.declared_once_shadowed :
    let s := Session.ofShadowedClass
    let redeclared := (Action.classDecl .globalName s).1
    s.Reached ∧ ∃ T : ScopeTables, s.context = s.context.withTables T ∧
      (∀ table ∈ T.tables, (table.map Prod.fst).Nodup) ∧
      (∀ b ∈ T.bindings, s.graph.contains b.2 = true ∧ (s.graph.decl b.2).name = b.1) ∧
      (.globalName, ⟨1⟩) ∈ T.bindings ∧ (.globalName, ⟨1⟩) ∉ T.current ∧
      redeclared = .error (.error (.type (.redefinition ⟨3⟩))) ∧
      (.globalName, ⟨3⟩) ∈ T.current := by
  have hrun : (Action.classDecl .globalName Session.ofShadowedClass).1 =
      .error (.error (.type (.redefinition ⟨3⟩))) := by decide +kernel
  have hbound : (.globalName, ⟨1⟩) ∈ Session.ofShadowedClass.context.bindings := by decide +kernel
  obtain ⟨T, hcontext, hdistinct, hnamed, hiff⟩ :=
    Session.Reached.declared_once ofShadowedClass_reached
  have hclass := hiff _ _ _ (.classDecl (n := .globalName))
  refine ⟨ofShadowedClass_reached, T, hcontext, hdistinct, hnamed, ?_, fun hmem => ?_, hrun,
    (hclass ⟨3⟩).1 hrun⟩
  · rwa [hcontext] at hbound
  · cases hrun.symm.trans ((hclass ⟨1⟩).2 hmem)

end SemanticCore
