import SemanticCore.Proofs.Graph.Growth

/-!
# What computations on a graph do

`Build.Yields g x Q` says that the computation `x`, started on the graph `g`, only adds to it and
ends with a result and a graph that satisfy `Q`.  `Attempt.Yields` says the same of a computation
that may fail: it only adds to the graph whether or not it fails, and what it returns satisfies
`Q`.  A computation is taken apart by the rule for its first step (`Build.Yields.bind`,
`Attempt.Yields.bind`), and the rest is shown for every graph that the first step may leave behind.

The second half has the rule of each primitive addition.
-/

set_option autoImplicit false
namespace SemanticCore

open SemanticCore.Graph

variable {α β ε ε' : Type} {g : Graph}

/-! ## One step of an attempt -/

namespace Attempt

variable {x : Attempt ε α} {f : α → Attempt ε β} {a : α} {e : ε} {g' : Graph}

theorem bind_of_ok (h : x g = (.ok a, g')) : (x >>= f) g = f a g' := by
  simp only [Bind.bind, ExceptT.bind, ExceptT.mk, StateT.bind, h]
  rfl

theorem bind_of_error (h : x g = (.error e, g')) : (x >>= f) g = (.error e, g') := by
  simp only [Bind.bind, ExceptT.bind, ExceptT.mk, StateT.bind, h]
  rfl

theorem lift_of_eq {y : Build α} (h : y g = (a, g')) :
    (liftM y : Attempt ε α) g = (.ok a, g') :=
  congrArg (fun r : α × Graph => (Except.ok r.1, r.2)) h

theorem lift_bind (y : Build α) : ((liftM y : Attempt ε α) >>= f) g = f (y g).1 (y g).2 :=
  rfl

theorem adapt_of_ok (h : x g = (.ok a, g')) (k : ε → ε') :
    (x.adapt k : Attempt ε' α) g = (.ok a, g') := by
  change ((x g).1.mapError k, (x g).2) = _
  rw [h]
  rfl

theorem adapt_of_error (h : x g = (.error e, g')) (k : ε → ε') :
    (x.adapt k : Attempt ε' α) g = (.error (k e), g') := by
  change ((x g).1.mapError k, (x g).2) = _
  rw [h]
  rfl

end Attempt

/-! ## What a computation yields -/

/-- The computation only adds to the graph, and its result satisfies `Q`. -/
def Build.Yields (g : Graph) (x : Build α) (Q : α → Graph → Prop) : Prop :=
  g.Grows (x g).2 ∧ Q (x g).1 (x g).2

/-- The computation only adds to the graph, and if it succeeds its result satisfies `Q`. -/
def Attempt.Yields (g : Graph) (x : Attempt ε α) (Q : α → Graph → Prop) : Prop :=
  Build.Yields g x fun r g' => ∀ a, r = .ok a → Q a g'

namespace Build.Yields

variable {x : Build α} {f : α → Build β} {P : α → Graph → Prop} {Q : β → Graph → Prop}

theorem pure {b : β} (h : Q b g) : Yields g (Pure.pure b : Build β) Q := ⟨.refl g, h⟩

theorem bind (hg : g.WellFormed) (hx : Yields g x P)
    (hf : ∀ a g', g.Grows g' → g'.WellFormed → P a g' → Yields g' (f a) Q) :
    Yields g (x >>= f) Q := by
  have h := hf (x g).1 (x g).2 hx.1 (hx.1.wellFormed hg) hx.2
  exact ⟨hx.1.trans h.1, h.2⟩

theorem get_bind {f : Graph → Build β} (h : Yields g (f g) Q) :
    Yields g ((get : Build Graph) >>= f) Q :=
  h

theorem mono {Q' : α → Graph → Prop} (hx : Yields g x P) (h : ∀ a g', P a g' → Q' a g') :
    Yields g x Q' :=
  ⟨hx.1, h _ _ hx.2⟩

theorem congr {y : Build α} (h : x g = y g) (hy : Yields g y P) : Yields g x P := by
  rwa [Yields, h]

/-- A list of computations.  What each result satisfies has to go on holding as the graph grows,
since it is asked for at the end. -/
theorem mapM {P : β → Graph → Prop} (hP : ∀ {g g' b}, Graph.Grows g g' → P b g → P b g')
    {f : α → Build β} (as : List α) {g : Graph} (hg : g.WellFormed)
    (h : ∀ a ∈ as, ∀ g', g.Grows g' → g'.WellFormed → Yields g' (f a) P) :
    Yields g (as.mapM f) fun bs g' => ∀ b ∈ bs, P b g' := by
  induction as generalizing g with
  | nil =>
    rw [List.mapM_nil]
    exact .pure (by simp)
  | cons a as ih =>
    rw [List.mapM_cons]
    refine .bind hg (h a List.mem_cons_self g (.refl g) hg) fun b g₁ hgrow hg₁ hb => ?_
    have hrest := ih hg₁ fun x hx g' hgrow' =>
      h x (List.mem_cons_of_mem _ hx) g' (hgrow.trans hgrow')
    refine .bind hg₁ hrest fun bs g₂ hgrow' hg₂ hbs => .pure fun y hy => ?_
    rcases List.mem_cons.1 hy with rfl | hy
    · exact hP hgrow' hb
    · exact hbs y hy

end Build.Yields

namespace Attempt.Yields

variable {x : Attempt ε α} {f : α → Attempt ε β} {P : α → Graph → Prop} {Q : β → Graph → Prop}

theorem pure {b : β} (h : Q b g) : Yields g (Pure.pure b : Attempt ε β) Q :=
  ⟨.refl g, by rintro _ ⟨⟩; exact h⟩

theorem throw (e : ε) : Yields g (MonadExcept.throw e : Attempt ε β) Q :=
  ⟨.refl g, by rintro _ ⟨⟩⟩

theorem bind (hg : g.WellFormed) (hx : Yields g x P)
    (hf : ∀ a g', g.Grows g' → g'.WellFormed → P a g' → Yields g' (f a) Q) :
    Yields g (x >>= f) Q := by
  obtain ⟨hgrow, hres⟩ := hx
  rw [Yields, Build.Yields]
  rcases hxg : x g with ⟨e | a, g'⟩
  · rw [hxg] at hgrow
    rw [bind_of_error hxg]
    exact ⟨hgrow, by rintro _ ⟨⟩⟩
  · rw [hxg] at hgrow hres
    rw [bind_of_ok hxg]
    have h := hf a g' hgrow (hgrow.wellFormed hg) (hres a rfl)
    exact ⟨hgrow.trans h.1, h.2⟩

theorem lift {x : Build β} (hx : Build.Yields g x Q) :
    Yields g (liftM x : Attempt ε β) Q :=
  ⟨hx.1, by rintro _ ⟨⟩; exact hx.2⟩

theorem get_bind {f : Graph → Attempt ε β} (h : Yields g (f g) Q) :
    Yields g ((get : Attempt ε Graph) >>= f) Q :=
  h

theorem pure_bind {a : α} (h : Yields g (f a) Q) : Yields g (Pure.pure a >>= f) Q :=
  h

theorem throw_bind (e : ε) : Yields g ((MonadExcept.throw e : Attempt ε α) >>= f) Q :=
  ⟨.refl g, by rintro _ ⟨⟩⟩

theorem adapt {k : ε → ε'} (hx : Yields g x P) : Yields g (x.adapt k : Attempt ε' α) P := by
  obtain ⟨hgrow, hres⟩ := hx
  have hrun : (x.adapt k : Attempt ε' α) g = ((x g).1.mapError k, (x g).2) := rfl
  rw [Yields, Build.Yields, hrun]
  refine ⟨hgrow, fun a ha => ?_⟩
  cases hr : (x g).1 with
  | error e =>
    rw [hr] at ha
    cases ha
  | ok b =>
    rw [hr] at ha
    cases ha
    exact hres _ hr

theorem mono {Q' : α → Graph → Prop} (hx : Yields g x P) (h : ∀ a g', P a g' → Q' a g') :
    Yields g x Q' :=
  ⟨hx.1, fun a ha => h a _ (hx.2 a ha)⟩

/-- A failure that was caught is a result like any other. -/
theorem run (hx : Yields g x P) :
    Build.Yields g x.run fun r g' => ∀ a, r = .ok a → P a g' :=
  hx

/-- A list of computations, each of which may fail. -/
theorem mapM {P : β → Graph → Prop} (hP : ∀ {g g' b}, Graph.Grows g g' → P b g → P b g')
    {f : α → Attempt ε β} (as : List α) {g : Graph} (hg : g.WellFormed)
    (h : ∀ a ∈ as, ∀ g', g.Grows g' → g'.WellFormed → Yields g' (f a) P) :
    Yields g (as.mapM f) fun bs g' => ∀ b ∈ bs, P b g' := by
  induction as generalizing g with
  | nil =>
    rw [List.mapM_nil]
    exact .pure (by simp)
  | cons a as ih =>
    rw [List.mapM_cons]
    refine .bind hg (h a List.mem_cons_self g (.refl g) hg) fun b g₁ hgrow hg₁ hb => ?_
    have hrest := ih hg₁ fun x hx g' hgrow' =>
      h x (List.mem_cons_of_mem _ hx) g' (hgrow.trans hgrow')
    refine .bind hg₁ hrest fun bs g₂ hgrow' hg₂ hbs => .pure fun y hy => ?_
    rcases List.mem_cons.1 hy with rfl | hy
    · exact hP hgrow' hb
    · exact hbs y hy

end Attempt.Yields

/-! ## Primitive additions -/

theorem lt_size_push {κ : Type} (a : Array κ) (k : κ) : a.size < (a.push k).size :=
  Array.size_push k ▸ Nat.lt_succ_self _

namespace Build.Yields

theorem symbol (s : String) :
    Yields g (Build.symbol s) fun symbol g' => symbol.index < g'.symbols.size :=
  ⟨.of_addition (.symbol s),
    (Array.getElem?_eq_some_iff.1 (g.symbols.getElem?_intern s)).1⟩

theorem name {f : NameForm} (hf : f.Fits g) :
    Yields g (Build.name f) fun n g' => g'.contains n = true ∧ g'.name n = f :=
  ⟨.of_addition (.name hf), name_returned f g⟩

theorem constraint {f : ConsForm} (hf : f.Fits g) :
    Yields g (Build.constraint f) fun c g' => g'.contains c = true ∧ g'.cons c = f := by
  have hget := g.constraints.getElem?_intern f
  refine ⟨.of_addition (.constraint hf), contains_iff.2 (Array.getElem?_eq_some_iff.1 hget).1, ?_⟩
  exact congrArg (Option.getD · default) hget

theorem type {f : TypeForm} (hf : f.Fits g) :
    Yields g (Build.type f) fun t g' => g'.contains t = true ∧ g'.type t = f :=
  ⟨.of_addition (.type hf), type_returned f g⟩

theorem expr {f : ExprForm} {t : TypeHandle} (hf : Expr.Fits g ⟨f, t⟩) :
    Yields g (Build.expr f t) fun e g' => g'.contains e = true ∧ g'.expr e = ⟨f, t⟩ :=
  ⟨.of_addition (.expr hf), contains_iff.2 (lt_size_push _ _), (getD_push ..).trans (if_pos rfl)⟩

theorem decl {n : NameHandle} {f : DeclForm} (hn : g.contains n = true) (hf : f.Fits g) :
    Yields g (Build.decl n f) fun d g' => g'.contains d = true ∧ g'.decl d = ⟨n, none, f⟩ :=
  ⟨.of_addition (.decl hn hf), contains_iff.2 (lt_size_push _ _), (getD_push ..).trans (if_pos rfl)⟩

theorem stmt {f : StmtForm} (hf : f.Fits g) :
    Yields g (Build.stmt f) fun s g' => g'.contains s = true :=
  ⟨.of_addition (.stmt hf), contains_iff.2 (lt_size_push _ _)⟩

theorem defn {f : DefForm} (hf : f.Fits g) :
    Yields g (Build.defn f) fun d g' => g'.contains d = true :=
  ⟨.of_addition (.defn hf), contains_iff.2 (lt_size_push _ _)⟩

theorem init {f : InitForm} {t : TypeHandle} (hf : Init.Fits g ⟨f, t⟩) :
    Yields g (Build.init f t) fun i g' => g'.contains i = true :=
  ⟨.of_addition (.init hf), contains_iff.2 (lt_size_push _ _)⟩

theorem req {f : ReqForm} (hf : f.Fits g) :
    Yields g (Build.req f) fun r g' => g'.contains r = true :=
  ⟨.of_addition (.req hf), contains_iff.2 (lt_size_push _ _)⟩

theorem setContext (d : DeclHandle) {c : DeclHandle} (hc : g.contains c = true) :
    Yields g (Build.setContext d c) fun _ _ => True :=
  ⟨.of_addition (.place d hc), trivial⟩

theorem setContexts {c : DeclHandle} (ds : List DeclHandle) {g : Graph} (hg : g.WellFormed)
    (hc : g.contains c = true) : Yields g (Build.setContexts ds c) fun _ _ => True := by
  induction ds generalizing g with
  | nil => exact .pure trivial
  | cons d ds ih =>
    refine .bind hg (setContext d hc) fun _ g₁ hgrow hg₁ _ => ?_
    exact ih hg₁ (hgrow.contains hc)

end Build.Yields

namespace Attempt.Yields

theorem define (d : DeclHandle) {x : DefHandle} (hx : g.contains x = true) :
    Yields g (Build.define d x) fun _ _ => True :=
  ⟨.of_addition (.define d hx), fun _ _ => trivial⟩

theorem setInitializer (d : DeclHandle) {i : InitHandle} (hi : g.contains i = true) :
    Yields g (Build.setInitializer d i) fun _ _ => True :=
  ⟨.of_addition (.setInit d hi), fun _ _ => trivial⟩

end Attempt.Yields
end SemanticCore
