import SemanticCore.Proofs.Action.Growth
import SemanticCore.Proofs.Action.Scopes
import SemanticCore.Proofs.Action.Tabled

/-!
# One list of bindings behaves like a stack of tables

A context keeps the bindings of all open scopes in one list, and of each scope only where it begins.
`Represents` says that list and beginnings stand for the tables of another session, and `Simulates`
that an action on the one session does what an action on the other does.  Both are about a fixed
stack of tables of which only the innermost one may change.

The first half has a rule for every step: sequencing, reading, binding, marks, and frames, where the
fixed stack is one table higher inside.  With these the second half goes through the actions that
see the scopes, and then through programs, by induction on them.

* `ClientProgram.simulates` — a program does on the list what it does on tables.
* `ClientProgram.run_follows_tables` — **the list of bindings behaves like a stack of tables.**
-/

set_option autoImplicit false
namespace SemanticCore

variable {α β : Type} {T U : ScopeTables}

/-- The first session has in one list what the second one has in tables.  These are the tables of
`T`, up to the innermost one; marks are marks in the innermost scope of `U`. -/
structure Represents (T U : ScopeTables) (s : Session (List Marks)) (t : Session Tabled) :
    Prop where
  graph : s.graph = t.graph
  context : s.context = t.context.withTables t.client.tables
  scopes : t.context.scopes = []
  tables : ∃ table, t.client.tables = T.withCurrent table
  marks : s.client = t.client.marks.map (·.flatten U)

namespace Represents

variable {s : Session (List Marks)} {t : Session Tabled} (h : Represents T U s t)
include h

/-- The tables around the innermost one are those of `T`. -/
theorem flatten_eq (k : TableMark) : k.flatten t.client.tables = k.flatten T := by
  obtain ⟨table, htables⟩ := h.tables
  rw [TableMark.flatten, htables, ScopeTables.depth_withCurrent, ScopeTables.beneath_withCurrent]
  rfl

theorem withCurrent (table : Table) :
    Represents T U
      { s with context := t.context.withTables (t.client.tables.withCurrent table) }
      { t with client.tables := t.client.tables.withCurrent table } := by
  obtain ⟨old, htables⟩ := h.tables
  refine ⟨h.graph, rfl, h.scopes, ⟨table, ?_⟩, h.marks⟩
  rw [htables, ScopeTables.withCurrent_withCurrent]

theorem marks_eq :
    s.context.marks =
      TableMark.flatten T ⟨t.context.unscoped.marks, rfl, t.client.tables.current.length⟩ := by
  have hbindings : s.context.bindings.length =
      t.client.tables.beneath.length + t.client.tables.current.length := by
    rw [h.context, Context.withTables, ScopeTables.bindings_eq, List.length_append, Nat.add_comm]
  rw [← h.flatten_eq, TableMark.flatten, Context.marks, hbindings, h.context,
    Context.depth_withTables]
  rfl

/-- In a frame the tables are one higher. -/
theorem enter (f : Frame) :
    Represents (t.client.tables.push (f.owner t.client.tables)) U
      { s with context := f.enter s.context }
      { t with
        context := f.enterRest t.context
        client.tables := t.client.tables.push (f.owner t.client.tables) } where
  graph := h.graph
  context := by rw [h.context, f.enter_withTables]
  scopes := (f.scopes_enterRest t.context).trans h.scopes
  tables := ⟨_, rfl⟩
  marks := h.marks

/-- At the end of a frame the tables are those from before it. -/
theorem leave (f : Frame) {owner : DeclHandle} {s' : Session (List Marks)} {t' : Session Tabled}
    (h' : Represents (t.client.tables.push owner) U s' t') :
    t'.client.tables.pop = t.client.tables ∧
      Represents T U { s' with context := f.leave s'.context }
        { t' with context := f.leaveRest t'.context, client.tables := t'.client.tables.pop } := by
  obtain ⟨table, htable⟩ := h'.tables
  have hpop : t'.client.tables.pop = t.client.tables := by rw [htable]; rfl
  refine ⟨hpop, h'.graph, ?_, (f.scopes_leaveRest t'.context).trans h'.scopes, ?_, h'.marks⟩
  · change f.leave s'.context = _
    rw [h'.context, f.leave_withTables]
  · change ∃ table, t'.client.tables.pop = T.withCurrent table
    rw [hpop]
    exact h.tables

end Represents

/-- The two actions give the same result, whatever list stands for the tables, and then the list
stands for the tables again. -/
def Simulates (T U : ScopeTables) (x : Action (List Marks) α) (y : Action Tabled α) : Prop :=
  ∀ s t, Represents T U s t → (x s).1 = (y t).1 ∧ Represents T U (x s).2 (y t).2

namespace Simulates

open SemanticCore.Action (bind_of_ok bind_of_error tryCatch_of_ok tryCatch_of_error observe_of_ok
  observe_of_misuse observe_of_error)

/-! ## Sequencing -/

theorem pure (a : α) : Simulates T U (Pure.pure a) (Pure.pure a) :=
  fun _ _ h => ⟨rfl, h⟩

theorem throw (e : Failure) :
    Simulates T U (MonadExcept.throw e : Action _ α) (MonadExcept.throw e) :=
  fun _ _ h => ⟨rfl, h⟩

/-- What does not see the scopes does the same on tables. -/
theorem of_blind {x : Action (List Marks) α} {y : Action Tabled α} (hxy : Action.Blind x y)
    (hy : Action.Blind y y) : Simulates T U x y := by
  intro s t h
  obtain ⟨hres, hagree, hs, ht⟩ := hxy t.client.tables.scopes t.client.tables.bindings s t
    ⟨h.graph, h.context⟩
  refine ⟨hres, hagree.graph, ?_, hy.unchanged.1.trans h.scopes, ?_, ?_⟩
  · rw [hagree.context, ht]
    rfl
  · rw [ht]
    exact h.tables
  · rw [hs, ht]
    exact h.marks

theorem bind {x : Action (List Marks) α} {y : Action Tabled α} {f : α → Action (List Marks) β}
    {g : α → Action Tabled β} (hx : Simulates T U x y) (hf : ∀ a, Simulates T U (f a) (g a)) :
    Simulates T U (x >>= f) (y >>= g) := by
  intro s t h
  obtain ⟨hres, h'⟩ := hx s t h
  rcases hxs : x s with ⟨r, s'⟩
  rcases hyt : y t with ⟨r', t'⟩
  rw [hxs, hyt] at hres h'
  cases hres
  cases r with
  | error e =>
    rw [bind_of_error hxs, bind_of_error hyt]
    exact ⟨rfl, h'⟩
  | ok a =>
    rw [bind_of_ok hxs, bind_of_ok hyt]
    exact hf a s' t' h'

theorem graph_bind {f : Graph → Action (List Marks) β} {g : Graph → Action Tabled β}
    (hf : ∀ a, Simulates T U (f a) (g a)) :
    Simulates T U (Action.graph >>= f) (Action.graph >>= g) := by
  intro s t h
  have hrun : (Action.graph >>= f) s = f t.graph s := congrArg (f · s) h.graph
  rw [hrun]
  exact hf t.graph s t h

theorem tryCatch {x : Action (List Marks) α} {y : Action Tabled α}
    {f : Failure → Action (List Marks) α} {g : Failure → Action Tabled α}
    (hx : Simulates T U x y) (hf : ∀ e, Simulates T U (f e) (g e)) :
    Simulates T U (tryCatch x f) (tryCatch y g) := by
  intro s t h
  obtain ⟨hres, h'⟩ := hx s t h
  rcases hxs : x s with ⟨r, s'⟩
  rcases hyt : y t with ⟨r', t'⟩
  rw [hxs, hyt] at hres h'
  cases hres
  cases r with
  | error e =>
    rw [tryCatch_of_error hxs, tryCatch_of_error hyt]
    exact hf e s' t' h'
  | ok a =>
    rw [tryCatch_of_ok hxs, tryCatch_of_ok hyt]
    exact ⟨rfl, h'⟩

theorem observe {x : Action (List Marks) α} {y : Action Tabled α} (hx : Simulates T U x y) :
    Simulates T U (Action.observe x) (Action.observe y) := by
  intro s t h
  obtain ⟨hres, h'⟩ := hx s t h
  rcases hxs : x s with ⟨r, s'⟩
  rcases hyt : y t with ⟨r', t'⟩
  rw [hxs, hyt] at hres h'
  cases hres
  cases r with
  | ok a =>
    rw [observe_of_ok hxs, observe_of_ok hyt]
    exact ⟨rfl, h'⟩
  | error e =>
    cases he : e.isMisuse with
    | false =>
      rw [observe_of_error hxs he, observe_of_error hyt he]
      exact ⟨rfl, h'⟩
    | true =>
      cases e with
      | misuse m =>
        rw [observe_of_misuse hxs, observe_of_misuse hyt]
        exact ⟨rfl, h'⟩
      | _ => cases he

theorem build (x : Build α) : Simulates T U (Action.build x) (Action.build x) :=
  of_blind (.build x) (.build x)

theorem construct (x : Attempt BuildError α) :
    Simulates T U (Action.construct x) (Action.construct x) :=
  of_blind (.construct x) (.construct x)

/-! ## Tables -/

/-- What is read of the list is what is read of the tables. -/
theorem getTables_bind {f : Context → Action (List Marks) β} {g : ScopeTables → Action Tabled β}
    (hf : ∀ (c : Context) T', Simulates T U (f (c.withTables T')) (g T')) :
    Simulates T U (Action.context >>= f) (Tabled.getTables >>= g) := by
  intro s t h
  rw [Action.context_bind, h.context]
  exact hf t.context t.client.tables s t h

theorem lookupLocal? (n : NameHandle) :
    Simulates T U (Action.lookupLocal? n) (Tabled.lookupLocal? n) := by
  refine getTables_bind fun c T' => ?_
  rw [Context.lookupLocal?_withTables]
  exact pure _

theorem bindName (n : NameHandle) (d : DeclHandle) :
    Simulates T U (Action.modifyContext (·.bind n d)) (Tabled.modifyTables (·.bind n d)) := by
  intro s t h
  have hbind := h.withCurrent ((n, d) :: t.client.tables.current)
  have hrun : s.context.bind n d = t.context.withTables (t.client.tables.bind n d) := by
    rw [h.context, Context.bind_withTables]
  refine ⟨rfl, ?_⟩
  change Represents T U { s with context := s.context.bind n d } _
  rw [hrun]
  exact hbind

/-! ## Marks -/

/-- The marks of the list are the marks of the tables. -/
theorem mark_bind {f : Context → Action (List Marks) β} {g : TableMark → Action Tabled β}
    (hf : ∀ c k, c.marks = TableMark.flatten T k → Simulates T U (f c) (g k)) :
    Simulates T U (Action.context >>= f) (Tabled.mark >>= g) := by
  intro s t h
  rw [Action.context_bind]
  exact hf s.context _ h.marks_eq s t h

/-- Restoring marks of the innermost scope cuts the innermost table. -/
theorem restore (k : TableMark) :
    Simulates T U (Action.restore (k.flatten T)) (Tabled.restore k) := by
  intro s t h
  have hrestore : s.context.restore (k.flatten T) =
      (t.context.restore k.rest).map (·.withTables (t.client.tables.cut k.kept)) := by
    rw [h.context, ← h.flatten_eq]
    exact Context.restore_withTables h.scopes k.global k.kept
  cases hrest : t.context.restore k.rest with
  | error m =>
    rw [hrest] at hrestore
    have ht : Tabled.restore k t = (.error (.misuse m), t) :=
      bind_of_error (Action.restore_of_error hrest)
    rw [Action.restore_of_error hrestore, ht]
    exact ⟨rfl, h⟩
  | ok c =>
    rw [hrest] at hrestore
    have ht : Tabled.restore k t =
        Tabled.modifyTables (·.cut k.kept) { t with context := c } :=
      bind_of_ok (Action.restore_of_ok hrest)
    rw [Action.restore_of_ok hrestore, ht]
    have hcut := h.withCurrent (Context.oldest k.kept t.client.tables.current)
    exact ⟨rfl, hcut.graph, rfl, (Context.SameFrames.restore hrest).scopes.trans h.scopes,
      hcut.tables, hcut.marks⟩

/-- Tickets name the same marks. -/
theorem takeMark : Simulates T T Action.takeMark Tabled.takeMark := by
  change Simulates T T (Action.context >>= fun c => modifyGet fun s =>
    (s.client.length, { s with client := s.client ++ [c.marks] })) _
  refine mark_bind fun c k hmarks s t h => ?_
  have hcount : s.client.length = t.client.marks.length := by rw [h.marks, List.length_map]
  refine ⟨congrArg Except.ok hcount, { h with marks := ?_ }⟩
  change s.client ++ [c.marks] = (t.client.marks ++ [k]).map (·.flatten T)
  rw [List.map_append, ← h.marks, hmarks]
  rfl

theorem restoreMark (ticket : Nat) :
    Simulates T T (Action.restoreMark ticket) (Tabled.restoreMark ticket) := by
  intro s t h
  have hticket : s.client[ticket]? = t.client.marks[ticket]?.map (·.flatten T) := by
    rw [h.marks, List.getElem?_map]
  cases hk : t.client.marks[ticket]? with
  | none =>
    rw [hk] at hticket
    rw [Action.restoreMark_of_none hticket, Tabled.restoreMark_of_none hk]
    exact ⟨rfl, h⟩
  | some k =>
    rw [hk] at hticket
    rw [Action.restoreMark_of_some hticket, Tabled.restoreMark_of_some hk]
    exact restore k s t h

/-- A body with marks of its own. -/
theorem ownMarks {x : Action (List Marks) α} {y : Action Tabled α} (hx : Simulates T T x y) :
    Simulates T U (Action.ownMarks x) (Tabled.ownMarks y) := by
  intro s t h
  obtain ⟨hres, h'⟩ := hx { s with client := [] } { t with client.marks := [] }
    { h with marks := rfl }
  exact ⟨hres, { h' with marks := h.marks }⟩

theorem trial {x : Action (List Marks) α} {y : Action Tabled α} (hx : Simulates T U x y) :
    Simulates T U (Action.trial x) (Tabled.trial y) := by
  refine mark_bind fun c k hmarks => tryCatch hx fun e => ?_
  rw [hmarks]
  cases e.isRecoverable with
  | true => exact bind (restore k) fun _ => throw e
  | false => exact throw e

/-! ## Frames -/

/-- Inside a frame the fixed stack is one table higher. -/
theorem within (f : Frame) {x : Action (List Marks) α} {y : Action Tabled α}
    (hx : ∀ T', Simulates T' U x y) :
    Simulates T U (Action.within f x) (Tabled.within f y) := by
  intro s t h
  obtain ⟨hres, h'⟩ := hx _ _ _ (h.enter f)
  exact ⟨hres, (h.leave f h').2⟩

/-! ## Names and declarations -/

theorem nameExpr (n : NameHandle) : Simulates T U (Action.nameExpr n) (Tabled.nameExpr n) := by
  refine getTables_bind fun c T' => ?_
  rw [Context.lookup?_withTables]
  cases T'.lookup? n with
  | none => exact graph_bind fun g => throw _
  | some d =>
    refine graph_bind fun g => ?_
    cases (g.decl d).form with
    | var | function | objectParam | valueParam => exact construct _
    | template => exact construct _
    | ofNamespace | ofClass | concept | typeParam => exact throw _

theorem declare (d : DeclHandle) : Simulates T U (Action.declare d) (Tabled.declare d) := by
  refine graph_bind fun g => bind (lookupLocal? _) fun found => ?_
  cases found with
  | some earlier => exact throw _
  | none =>
    refine bind (bindName _ d) fun _ => getTables_bind fun c T' => ?_
    rw [Context.currentScope_withTables]
    exact build _

theorem declareAll (ds : List DeclHandle) :
    Simulates T U (Action.declareAll ds) (Tabled.declareAll ds) := by
  induction ds with
  | nil => exact pure ()
  | cons d ds ih => exact bind (declare d) fun _ => ih

theorem variableDecl (n : NameHandle) (t : TypeHandle) (written : Option InitSyntax) :
    Simulates T U (Action.variableDecl n t written) (Tabled.variableDecl n t written) := by
  refine bind (build _) fun d => mark_bind fun c k hmarks => bind (declare d) fun _ => ?_
  refine bind (build _) fun r => ?_
  cases r with
  | ok _ => exact pure d
  | error e =>
    rw [hmarks]
    exact bind (restore k) fun _ => throw _

theorem functionDecl (n : NameHandle) (params : List DeclHandle) (ret : TypeHandle) :
    Simulates T U (Action.functionDecl n params ret) (Tabled.functionDecl n params ret) :=
  bind (construct _) fun f => bind (declare f) fun _ => bind (build _) fun _ => pure f

theorem classDecl (n : NameHandle) : Simulates T U (Action.classDecl n) (Tabled.classDecl n) :=
  bind (build _) fun d => bind (declare d) fun _ => pure d

theorem defineFunction (f : DeclHandle) {body : Action (List Marks) StmtHandle}
    {body' : Action Tabled StmtHandle} (hbody : ∀ T', Simulates T' U body body') :
    Simulates T U (Action.defineFunction f body) (Tabled.defineFunction f body') := by
  refine graph_bind fun g => ?_
  cases (g.decl f).form with
  | function ret params definition =>
    refine bind (within (.scope f) fun T' =>
      bind (declareAll params) fun _ => hbody T') fun stmt => ?_
    exact bind (build _) fun definition => construct _
  | _ => exact throw _

theorem templateDecl (params : List DeclHandle) (constraint : Option ExprHandle)
    {pattern : Action (List Marks) DeclHandle} {pattern' : Action Tabled DeclHandle}
    (hpattern : ∀ T', Simulates T' U pattern pattern') :
    Simulates T U (Action.templateDecl params constraint pattern)
      (Tabled.templateDecl params constraint pattern') := by
  refine bind (within (.template params constraint) fun T' =>
    bind (declareAll params) fun _ => hpattern T') fun pattern => ?_
  refine bind (build _) fun template => bind (declare template) fun _ => ?_
  exact bind (build _) fun _ => bind (build _) fun _ => pure template

theorem conceptDecl (n : NameHandle) (params : List DeclHandle)
    {definition : Action (List Marks) ExprHandle} {definition' : Action Tabled ExprHandle}
    (hdefinition : ∀ T', Simulates T' U definition definition') :
    Simulates T U (Action.conceptDecl n params definition)
      (Tabled.conceptDecl n params definition') := by
  refine bind (within (.template params none) fun T' =>
    bind (declareAll params) fun _ => hdefinition T') fun e => ?_
  refine bind (build _) fun concept => bind (declare concept) fun _ => ?_
  exact bind (build _) fun _ => pure concept

theorem requiresExpr (tparams params : List DeclHandle)
    {reqs : Action (List Marks) (List ReqHandle)} {reqs' : Action Tabled (List ReqHandle)}
    (hreqs : ∀ T', Simulates T' U reqs reqs') :
    Simulates T U (Action.requiresExpr tparams params reqs)
      (Tabled.requiresExpr tparams params reqs') := by
  refine bind (within .requirements fun T' =>
    bind (declareAll params) fun _ => hreqs T') fun reqs => ?_
  exact build _

end Simulates

/-! ## Programs -/

/-- **A program does on the list what it does on tables**, and changes the innermost table only. -/
theorem ClientProgram.simulates (p : ClientProgram α) : Simulates T T p.run p.onTables := by
  induction p generalizing T with
  | pure a => exact .pure a
  | bind p f ihp ihf => exact .bind ihp fun a => ihf a
  | fail e => exact .throw _
  | abandon => exact .throw _
  | observe p ih => exact .observe ih
  | look => exact .of_blind .look .look
  | build x => exact .build x
  | changeQueue k => exact .of_blind (.changeQueue k) (.changeQueue k)
  | reportError d => exact .of_blind (.reportError d) (.reportError d)
  | setLocation span =>
    exact .of_blind (.modifyContext fun _ _ _ => rfl) (.modifyContext fun _ _ _ => rfl)
  | currentScope =>
    refine .getTables_bind fun c T' => ?_
    rw [Context.currentScope_withTables]
    exact .pure _
  | depth =>
    refine .getTables_bind fun c T' => ?_
    rw [Context.depth_withTables]
    exact .pure _
  | bindName n d => exact .bindName n d
  | lookup n =>
    refine .getTables_bind fun c T' => ?_
    rw [Context.lookup?_withTables]
    exact .pure _
  | lookupLocal n => exact .lookupLocal? n
  | require e => exact .of_blind (.require e) (.require e)
  | mark => exact .takeMark
  | restore ticket => exact .restoreMark ticket
  | trial p ih => exact .trial ih
  | within f p ih => exact .within f fun _ => .ownMarks ih
  | nameExpr n => exact .nameExpr n
  | call callee args => exact .of_blind (.call callee args) (.call callee args)
  | variableDecl n t written => exact .variableDecl n t written
  | functionDecl n params ret => exact .functionDecl n params ret
  | classDecl n => exact .classDecl n
  | defineFunction f body ih => exact .defineFunction f fun _ => .ownMarks ih
  | templateDecl params constraint pattern ih =>
    exact .templateDecl params constraint fun _ => .ownMarks ih
  | conceptDecl n params definition ih => exact .conceptDecl n params fun _ => .ownMarks ih
  | requiresExpr tparams params reqs ih => exact .requiresExpr tparams params fun _ => .ownMarks ih

/-- A context with tables in its list stands for the tables. -/
theorem represents_withTables (g : Graph) (c : Context) (T : ScopeTables) :
    Represents T T ⟨g, c.withTables T, []⟩ ⟨g, c.unscoped, ⟨T, []⟩⟩ :=
  ⟨rfl, rfl, rfl, ⟨T.current, T.withCurrent_current.symm⟩, rfl⟩

/-- **The list of bindings behaves like a stack of tables.**  Let the list of a context stand for
any tables, as the list at the start of a translation unit stands for `ScopeTables.empty`.  Every
program gives the answers, lookups included, that it gives on the tables, and fails as it fails
there.  Then the list stands for the tables that the program has made of them: only the innermost
one has changed, and no scope is missing or left open, the global one included.  A frame leaves
scopes and bindings exactly as they were, whether its body has failed or not. -/
theorem ClientProgram.run_follows_tables (p : ClientProgram α) (f : Frame) (g : Graph)
    (c : Context) (T : ScopeTables) :
    let s := p.run ⟨g, c.withTables T, []⟩
    let t := p.onTables ⟨g, c.unscoped, ⟨T, []⟩⟩
    let framed := (ClientProgram.within f p).run ⟨g, c.withTables T, []⟩
    s.1 = t.1 ∧ s.2.graph = t.2.graph ∧
      s.2.context = t.2.context.withTables t.2.client.tables ∧
      (∃ table, t.2.client.tables = T.withCurrent table) ∧
      (∀ n, s.2.context.lookup? n = t.2.client.tables.lookup? n ∧
        s.2.context.lookupLocal? n = .ok (t.2.client.tables.lookupLocal? n)) ∧
      framed.2.context.scopes = T.scopes ∧ framed.2.context.bindings = T.bindings := by
  intro s t framed
  have hstart := represents_withTables g c T
  obtain ⟨hres, hend⟩ := p.simulates _ _ hstart
  have hlookups : ∀ n, s.2.context.lookup? n = t.2.client.tables.lookup? n ∧
      s.2.context.lookupLocal? n = .ok (t.2.client.tables.lookupLocal? n) := by
    intro n
    rw [hend.context, Context.lookup?_withTables, Context.lookupLocal?_withTables]
    exact ⟨rfl, rfl⟩
  -- the body of the frame has a table of its own, which its end throws away
  obtain ⟨-, hbody⟩ := Simulates.ownMarks p.simulates _ _ (hstart.enter f)
  obtain ⟨hpop, hleft⟩ := hstart.leave f hbody
  have hframed := hleft.context
  rw [hpop] at hframed
  refine ⟨hres, hend.graph, hend.context, hend.tables, hlookups, ?_, ?_⟩
  · exact congrArg Context.scopes hframed
  · exact congrArg Context.bindings hframed

end SemanticCore
