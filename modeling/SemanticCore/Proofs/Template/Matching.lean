import SemanticCore.Proofs.Template.Replacement
import SemanticCore.Template.Deduction

/-!
# Matching is first-order matching

Matching the type of a parameter against the type of an argument solves the equation between their
trees for the template parameters that occur in it.  `Graph.Matches` says that a computation on
substitutions does exactly this for a list of equations: whatever it returns solves them and binds
just the parameters that occur in them, and it returns something whenever there is a solution.

The property composes along lists (`Graph.Matches.cons`), so it passes from the components of a type
to the type, and this is how `Graph.WellFormed.matches_matchType` goes through: **matching one type
is complete and sound** by induction on the parameter's type.
-/

set_option autoImplicit false
namespace SemanticCore

/-! ## Substitutions -/

namespace Substitution

variable {s s' s'' : Substitution} {d p : DeclHandle} {a : Term} {θ : DeclHandle → TypeHandle}

/-- The second substitution has the arguments of the first one, and perhaps more. -/
structure Le (s s' : Substitution) : Prop where
  params : s'.params = s.params
  get? : ∀ d a, s.get? d = some a → s'.get? d = some a

/-- The substitution binds parameters of its own to types of the graph. -/
def Typed (g : Graph) (s : Substitution) : Prop :=
  ∀ d a, s.get? d = some a → d ∈ s.params ∧ ∃ t, a = .type t ∧ g.contains t = true

/-- What the substitution binds it binds as the assignment says. -/
def Agrees (s : Substitution) (θ : DeclHandle → TypeHandle) : Prop :=
  ∀ d a, s.get? d = some a → a = .type (θ d)

theorem Le.refl (s : Substitution) : s.Le s := ⟨rfl, fun _ _ h => h⟩

theorem Le.trans (h : s.Le s') (h' : s'.Le s'') : s.Le s'' :=
  ⟨h'.params.trans h.params, fun d a hd => h'.get? d a (h.get? d a hd)⟩

theorem Agrees.of_le (h : s.Le s') (hθ : s'.Agrees θ) : s.Agrees θ :=
  fun d a hd => hθ d a (h.get? d a hd)

theorem get?_cons (s : Substitution) (p : DeclHandle) (a : Term) (d : DeclHandle) :
    Substitution.get? { s with bindings := (p, a) :: s.bindings } d =
      if d = p then some a else s.get? d := by
  rw [Substitution.get?, List.lookup_cons]
  by_cases h : d = p
  · rw [if_pos h, beq_iff_eq.2 h]
  · rw [if_neg h, beq_false_of_ne h]
    rfl

/-- What binding a parameter does when it succeeds. -/
theorem bind_ok (h : s.bind p a = .ok s') :
    s'.params = s.params ∧ ∀ d, s'.get? d = if d = p then some a else s.get? d := by
  rw [Substitution.bind] at h
  split at h
  · next old hold =>
    split at h
    · next heq =>
      cases h
      subst heq
      refine ⟨rfl, fun d => ?_⟩
      split
      · next hd => rw [hd, hold]
      · rfl
    · cases h
  · cases h
    exact ⟨rfl, get?_cons s p a⟩

/-- Binding a parameter succeeds if it is not bound to something else. -/
theorem bind_of_forall (h : ∀ old, s.get? p = some old → old = a) : ∃ s', s.bind p a = .ok s' := by
  rw [Substitution.bind]
  split
  · next old hold => exact ⟨s, if_pos (h old hold)⟩
  · exact ⟨_, rfl⟩

theorem bindType_eq_ok {t : TypeHandle} :
    s.bindType p t = .ok s' ↔ s.bind p (.type t) = .ok s' := by
  rw [bindType]
  cases s.bind p (.type t) <;> simp

theorem le_of_bind (h : s.bind p a = .ok s') : s.Le s' := by
  obtain ⟨hparams, hget⟩ := bind_ok h
  refine ⟨hparams, fun d b hd => ?_⟩
  rw [hget]
  split
  · next heq =>
    rw [Substitution.bind, ← heq, hd] at h
    simp only at h
    split at h
    · next hba => rw [hba]
    · cases h
  · exact hd

end Substitution

namespace Graph

/-! ## Equations between types -/

/-- A solution of the equations: the trees on the left with the parameters replaced are those on the
right. -/
def Solves (g : Graph) (ds : List DeclHandle) (θ : DeclHandle → TypeHandle)
    (eqs : List (TypeHandle × TypeHandle)) : Prop :=
  ∀ e ∈ eqs, (g.typeTree e.1).replace ds (fun d => g.typeTree (θ d)) = g.typeTree e.2

/-- The parameter occurs on the left of some equation. -/
def Occurs (g : Graph) (eqs : List (TypeHandle × TypeHandle)) (d : DeclHandle) : Prop :=
  ∃ e ∈ eqs, (g.typeTree e.1).Mentions d

/-- The computation solves the equations for the parameters `ds`. -/
structure Matches (g : Graph) (ds : List DeclHandle)
    (x : Substitution → Except DeductionError Substitution)
    (eqs : List (TypeHandle × TypeHandle)) : Prop where
  /-- What is bound before stays bound. -/
  le : ∀ {s s'}, s.params = ds → x s = .ok s' → s.Le s'
  typed : ∀ {s s'}, s.params = ds → s.Typed g → x s = .ok s' → s'.Typed g
  /-- Just the parameters that occur are bound. -/
  bound : ∀ {s s'}, s.params = ds → x s = .ok s' → ∀ d,
    s'.isBound d = true ↔ s.isBound d = true ∨ d ∈ ds ∧ g.Occurs eqs d
  sound : ∀ {s s' θ}, s.params = ds → x s = .ok s' → s'.Agrees θ → g.Solves ds θ eqs
  complete : ∀ {s θ}, s.params = ds → (∀ d ∈ ds, g.contains (θ d) = true) → s.Agrees θ →
    g.Solves ds θ eqs → ∃ s', x s = .ok s' ∧ s'.Agrees θ

variable {g : Graph} {ds : List DeclHandle}
  {x y : Substitution → Except DeductionError Substitution}
  {eqs : List (TypeHandle × TypeHandle)}

/-- There is nothing to solve. -/
theorem Matches.nil (g : Graph) (ds : List DeclHandle) : g.Matches ds .ok [] where
  le _ h := by cases h; exact .refl _
  typed _ hs h := by cases h; exact hs
  bound _ h d := by cases h; simp [Occurs]
  sound _ _ _ e he := by cases he
  complete _ _ hs _ := ⟨_, rfl, hs⟩

/-- The first equation is solved, and then the others. -/
theorem Matches.cons {e : TypeHandle × TypeHandle} (hx : g.Matches ds x [e])
    (hy : g.Matches ds y eqs) : g.Matches ds (fun s => x s >>= y) (e :: eqs) := by
  have hbind : ∀ {s s'}, s.params = ds → (x s >>= y) = .ok s' →
      ∃ s₁, x s = .ok s₁ ∧ s₁.params = ds ∧ y s₁ = .ok s' := by
    intro s s' hs h
    cases hxs : x s with
    | error err => rw [hxs] at h; cases h
    | ok s₁ =>
      rw [hxs] at h
      exact ⟨s₁, rfl, (hx.le hs hxs).params.trans hs, h⟩
  constructor
  case le =>
    intro s s' hs h
    obtain ⟨s₁, h₁, hs₁, h₂⟩ := hbind hs h
    exact (hx.le hs h₁).trans (hy.le hs₁ h₂)
  case typed =>
    intro s s' hs ht h
    obtain ⟨s₁, h₁, hs₁, h₂⟩ := hbind hs h
    exact hy.typed hs₁ (hx.typed hs ht h₁) h₂
  case bound =>
    intro s s' hs h d
    obtain ⟨s₁, h₁, hs₁, h₂⟩ := hbind hs h
    have hocc : g.Occurs (e :: eqs) d ↔ g.Occurs [e] d ∨ g.Occurs eqs d := by simp [Occurs]
    rw [hy.bound hs₁ h₂ d, hx.bound hs h₁ d, hocc, or_assoc, and_or_left]
  case sound =>
    intro s s' θ hs h hθ e' he'
    obtain ⟨s₁, h₁, hs₁, h₂⟩ := hbind hs h
    rcases List.mem_cons.1 he' with rfl | he'
    · exact hx.sound hs h₁ (hθ.of_le (hy.le hs₁ h₂)) e' List.mem_cons_self
    · exact hy.sound hs₁ h₂ hθ e' he'
  case complete =>
    intro s θ hs hc hθ hsol
    obtain ⟨s₁, h₁, hθ₁⟩ := hx.complete hs hc hθ fun e' he' =>
      hsol e' (List.mem_singleton.1 he' ▸ List.mem_cons_self)
    obtain ⟨s₂, h₂, hθ₂⟩ := hy.complete ((hx.le hs h₁).params.trans hs) hc hθ₁ fun e' he' =>
      hsol e' (List.mem_cons_of_mem _ he')
    exact ⟨s₂, by rw [h₁]; exact h₂, hθ₂⟩

theorem Matches.congr (hx : g.Matches ds x eqs) (h : ∀ s, s.params = ds → y s = x s) :
    g.Matches ds y eqs where
  le hs hy := hx.le hs (h _ hs ▸ hy)
  typed hs ht hy := hx.typed hs ht (h _ hs ▸ hy)
  bound hs hy := hx.bound hs (h _ hs ▸ hy)
  sound hs hy := hx.sound hs (h _ hs ▸ hy)
  complete hs hc hθ hsol := h _ hs ▸ hx.complete hs hc hθ hsol

/-- Other equations with the same solutions and the same parameters. -/
theorem Matches.of_iff {eqs' : List (TypeHandle × TypeHandle)} (hx : g.Matches ds x eqs)
    (hsol : ∀ θ, g.Solves ds θ eqs' ↔ g.Solves ds θ eqs)
    (hocc : ∀ d, g.Occurs eqs' d ↔ g.Occurs eqs d) : g.Matches ds x eqs' where
  le := hx.le
  typed := hx.typed
  bound hs h d := by rw [hx.bound hs h, hocc]
  sound hs h hθ := (hsol _).2 (hx.sound hs h hθ)
  complete hs hc hθ h := hx.complete hs hc hθ ((hsol _).1 h)

/-- Equations that come from the members of a list are solved one after the other. -/
theorem Matches.foldlM {β : Type} {f : Substitution → β → Except DeductionError Substitution}
    {k : β → TypeHandle × TypeHandle} (bs : List β) (h : ∀ b ∈ bs, g.Matches ds (f · b) [k b]) :
    g.Matches ds (fun s => bs.foldlM f s) (bs.map k) := by
  induction bs with
  | nil => exact .nil g ds
  | cons b bs ih =>
    simp only [List.foldlM_cons]
    exact (h b List.mem_cons_self).cons (ih fun c hc => h c (List.mem_cons_of_mem _ hc))

/-! ## One equation -/

/-- Types without any of the parameters match if they are the same. -/
theorem Matches.same {p a : TypeHandle} (hsol : ∀ θ, g.Solves ds θ [(p, a)] ↔ p = a)
    (hocc : p = a → ∀ d ∈ ds, ¬ g.Occurs [(p, a)] d) :
    g.Matches ds (fun s => if p = a then .ok s else .error (.mismatch p a)) [(p, a)] := by
  have hok : ∀ {s s' : Substitution},
      (if p = a then .ok s else .error (.mismatch p a) : Except DeductionError _) = .ok s' →
        p = a ∧ s = s' := by
    intro s s' h
    split at h
    · next hpa => exact ⟨hpa, Except.ok.inj h⟩
    · cases h
  constructor
  case le => intro s s' _ h; exact (hok h).2 ▸ .refl s
  case typed => intro s s' _ ht h; exact (hok h).2 ▸ ht
  case bound =>
    intro s s' _ h d
    obtain ⟨hpa, rfl⟩ := hok h
    exact (or_iff_left fun hd => hocc hpa d hd.1 hd.2).symm
  case sound => intro s s' θ _ h _; exact (hsol θ).2 (hok h).1
  case complete => intro s θ _ _ hθ h; exact ⟨s, if_pos ((hsol θ).1 h), hθ⟩

/-- A parameter of the template matches the type that it is bound to, and is bound to it. -/
theorem WellFormed.matches_bind (hg : g.WellFormed) {d : DeclHandle} {p a : TypeHandle}
    (hp : g.contains p = true) (ha : g.contains a = true) (hd : d ∈ ds)
    (hform : g.type p = .typename d) : g.Matches ds (fun s => s.bindType d a) [(p, a)] := by
  have htree : ∀ θ : DeclHandle → TypeTree, (g.typeTree p).replace ds θ = θ d := fun θ => by
    rw [hg.typeTree_eq hp, hform, TypeForm.replace_typename hd]
  have hocc : ∀ d', g.Occurs [(p, a)] d' ↔ d' = d := fun d' => by
    simp [Occurs, hg.mentions_iff hp, hform, TypeForm.components, eq_comm]
  constructor
  case le => intro s s' _ h; exact Substitution.le_of_bind (Substitution.bindType_eq_ok.1 h)
  case typed =>
    intro s s' hs ht h d' b hb
    obtain ⟨hparams, hget⟩ := Substitution.bind_ok (Substitution.bindType_eq_ok.1 h)
    rw [hget] at hb
    rw [hparams]
    split at hb
    · next heq => cases hb; exact ⟨heq ▸ hs ▸ hd, a, rfl, ha⟩
    · exact ht d' b hb
  case bound =>
    intro s s' _ h d'
    obtain ⟨-, hget⟩ := Substitution.bind_ok (Substitution.bindType_eq_ok.1 h)
    rw [Substitution.isBound, hget, hocc]
    split
    · next heq => simp [heq, hd]
    · next hne => simp [hne, Substitution.isBound]
  case sound =>
    intro s s' θ _ h hθ e he
    obtain ⟨-, hget⟩ := Substitution.bind_ok (Substitution.bindType_eq_ok.1 h)
    have hθd := hθ d (.type a) (by rw [hget, if_pos rfl])
    rw [List.mem_singleton.1 he, htree, ← Term.type.inj hθd]
  case complete =>
    intro s θ _ hc hθ hsol
    have hθd : θ d = a := hg.typeTree_injective (hc d hd) ha
      ((htree _).symm.trans (hsol (p, a) List.mem_cons_self))
    obtain ⟨s', hs'⟩ := Substitution.bind_of_forall (s := s) (p := d) (a := .type a)
      fun old hold => by rw [hθ d old hold, hθd]
    refine ⟨s', Substitution.bindType_eq_ok.2 hs', fun d' b hb => ?_⟩
    rw [(Substitution.bind_ok hs').2] at hb
    split at hb
    · next heq => cases hb; rw [heq, hθd]
    · exact hθ d' b hb

theorem map_eq_map_iff_zip {α β γ : Type} {f : α → γ} {h : β → γ} {as : List α} {bs : List β}
    (hlen : as.length = bs.length) :
    as.map f = bs.map h ↔ ∀ e ∈ as.zip bs, f e.1 = h e.2 := by
  induction as generalizing bs with
  | nil => simp [List.length_eq_zero_iff.1 hlen.symm]
  | cons a as ih =>
    cases bs with
    | nil => cases hlen
    | cons b bs =>
      rw [List.map_cons, List.map_cons, List.cons.injEq, ih (Nat.succ.inj hlen), List.zip_cons_cons,
        List.forall_mem_cons]

theorem exists_mem_iff_zip {α β : Type} {p : α → Prop} {as : List α} {bs : List β}
    (hlen : as.length = bs.length) : (∃ a ∈ as, p a) ↔ ∃ e ∈ as.zip bs, p e.1 := by
  induction as generalizing bs with
  | nil => simp
  | cons a as ih =>
    cases bs with
    | nil => cases hlen
    | cons b bs => simp [ih (Nat.succ.inj hlen)]

/-- An equation between types of one construct is the equations between their components. -/
theorem WellFormed.matches_of_alike (hg : g.WellFormed) {p a : TypeHandle}
    (hp : g.contains p = true) (ha : g.contains a = true) (h : (g.type p).Alike (g.type a))
    (hx : g.Matches ds x ((g.type p).components.zip (g.type a).components)) :
    g.Matches ds x [(p, a)] := by
  have hne : ∀ d, g.type p ≠ .typename d := fun d hd => by rw [hd] at h; cases h
  refine hx.of_iff (fun θ => ?_) fun d => ?_
  · have hiff := h.tree_eq_iff (fun t => (g.typeTree t).replace ds fun d => g.typeTree (θ d))
      g.typeTree
    rw [map_eq_map_iff_zip h.length_eq, ← TypeForm.replace_tree fun d _ => hne d,
      ← hg.typeTree_eq hp, ← hg.typeTree_eq ha] at hiff
    simpa [Solves] using hiff
  · simp only [Occurs, List.mem_singleton, exists_eq_left]
    rw [hg.mentions_iff hp, or_iff_right (hne d), exists_mem_iff_zip h.length_eq]

/-! ## Matching a type -/

/-- What matching does for the components of a type. -/
def matchPart (g : Graph) (p : TypeHandle) (s : Substitution) (e : TypeHandle × TypeHandle) :
    Except DeductionError Substitution :=
  if e.1 < p then g.matchType e.1 e.2 s
  else if e.1 = e.2 then .ok s
  else .error (.mismatch e.1 e.2)

variable {s : Substitution} {p a : TypeHandle}

/-- A type without parameters is compared. -/
theorem matchType_of_flag (h : (g.typeFlags p).parameter = false) :
    g.matchType p a s = if p = a then .ok s else .error (.mismatch p a) := by
  rw [matchType, if_neg (ne_true_of_eq_false h)]

theorem matchType_typename {d : DeclHandle} (h : (g.typeFlags p).parameter = true)
    (hd : g.type p = .typename d) : g.matchType p a s =
      if d ∈ s.params then s.bindType d a
      else if p = a then .ok s else .error (.mismatch p a) := by
  rw [matchType, if_pos h, hd]

/-- Types of one construct are matched component by component. -/
theorem matchType_alike (h : (g.typeFlags p).parameter = true)
    (hpa : (g.type p).Alike (g.type a)) : g.matchType p a s =
      ((g.type p).components.zip (g.type a).components).foldlM (g.matchPart p) s := by
  rw [matchType, if_pos h]
  generalize g.type p = f, g.type a = f' at hpa
  cases hpa with
  | @function xs ys x y hlen =>
    simp only [if_pos hlen, TypeForm.components, List.zip_append hlen, List.foldlM_append,
      List.zip_cons_cons, List.zip_nil_right, List.foldlM_cons, List.foldlM_nil, matchPart,
      bind_pure, dite_eq_ite]
    rfl
  | qualified x y q =>
    simp only [if_true, TypeForm.components, List.zip_cons_cons, List.zip_nil_right,
      List.foldlM_cons, List.foldlM_nil, matchPart, bind_pure, dite_eq_ite]
  | pointer x y | reference x y | sequence x y =>
    simp only [TypeForm.components, List.zip_cons_cons, List.zip_nil_right, List.foldlM_cons,
      List.foldlM_nil, matchPart, bind_pure, dite_eq_ite]

/-- Types of different constructs are compared. -/
theorem matchType_unalike (h : (g.typeFlags p).parameter = true)
    (hp : ∀ d, g.type p ≠ .typename d) (hpa : ¬ (g.type p).Alike (g.type a)) :
    g.matchType p a s = if p = a then .ok s else .error (.mismatch p a) := by
  rw [matchType, if_pos h]
  generalize g.type p = f, g.type a = f' at hp hpa
  split
  · exact absurd rfl (hp _)
  · next x y => exact absurd (.pointer x y) hpa
  · next x y => exact absurd (.reference x y) hpa
  · next x y => exact absurd (.sequence x y) hpa
  · next x q y r =>
    refine if_neg fun hqr => hpa ?_
    subst hqr
    exact .qualified x y q
  · next xs x ys y => exact if_neg fun hlen => hpa (.function x y hlen)
  · rfl

/-- A type in which none of the parameters occurs matches only itself. -/
theorem WellFormed.matches_of_not_mentions (hg : g.WellFormed) (hp : g.contains p = true)
    (ha : g.contains a = true) (hno : ∀ d ∈ ds, ¬ (g.typeTree p).Mentions d) :
    g.Matches ds (fun s => if p = a then .ok s else .error (.mismatch p a)) [(p, a)] := by
  refine .same (fun θ => ?_) fun _ d hd => by simpa [Occurs] using hno d hd
  simp only [Solves, List.mem_singleton, forall_eq, hg.replace_of_not_mentions hp hno]
  exact ⟨hg.typeTree_injective hp ha, congrArg _⟩

/-- A type that mentions a parameter, but is none itself, has components. -/
theorem WellFormed.components_ne_nil (hg : g.WellFormed) (hp : g.contains p = true)
    (hflag : (g.typeFlags p).parameter = true) (hne : ∀ d, g.type p ≠ .typename d) :
    (g.type p).components ≠ [] := by
  obtain ⟨d, hd⟩ := (hg.parameter_iff hp).1 hflag
  obtain ⟨s, hs, -⟩ := ((hg.mentions_iff hp).1 hd).resolve_left (hne d)
  exact List.ne_nil_of_mem hs

/-- There is no solution between different constructs: the tree on the right would be of the
construct on the left. -/
theorem WellFormed.matches_of_unalike (hg : g.WellFormed) (hp : g.contains p = true)
    (ha : g.contains a = true) (hcomp : (g.type p).components ≠ [])
    (hne : ∀ d, g.type p ≠ .typename d) (halike : ¬ (g.type p).Alike (g.type a)) :
    g.Matches ds (fun s => if p = a then .ok s else .error (.mismatch p a)) [(p, a)] := by
  have hpa : p ≠ a := fun h => halike (h ▸ .refl hcomp)
  refine .same (fun θ => ⟨fun hsol => ?_, fun h => absurd h hpa⟩) fun h => absurd h hpa
  have htree := hsol (p, a) List.mem_cons_self
  rw [hg.typeTree_eq hp, hg.typeTree_eq ha, TypeForm.replace_tree fun d _ => hne d] at htree
  exact absurd (TypeForm.alike_of_tree_eq htree hcomp) halike

/-- Components that are matched before the type they belong to. -/
theorem WellFormed.matches_parts (hg : g.WellFormed) (hp : g.contains p = true)
    (ha : g.contains a = true)
    (ih : ∀ x y, x < p → g.contains x = true → g.contains y = true →
      g.Matches ds (g.matchType x y) [(x, y)]) :
    g.Matches ds
      (fun s => ((g.type p).components.zip (g.type a).components).foldlM (g.matchPart p) s)
      ((g.type p).components.zip (g.type a).components) := by
  have hpart : ∀ e ∈ (g.type p).components.zip (g.type a).components,
      g.Matches ds (g.matchPart p · e) [id e] := fun e he => by
    obtain ⟨hx, hy⟩ := List.of_mem_zip he
    have hlt := hg.component_lt hp hx
    exact (ih e.1 e.2 hlt (hg.contains_component hp hx) (hg.contains_component ha hy)).congr
      fun s _ => if_pos hlt
  have hparts := Matches.foldlM _ hpart
  rwa [List.map_id] at hparts

/-- **Matching a type against another solves the equation between them.** -/
theorem WellFormed.matches_matchType (hg : g.WellFormed) (ds : List DeclHandle) {p a : TypeHandle}
    (hp : g.contains p = true) (ha : g.contains a = true) :
    g.Matches ds (g.matchType p a) [(p, a)] := by
  obtain ⟨i⟩ := p
  induction i using Nat.strongRecOn generalizing a with
  | ind i ih =>
    cases hflag : (g.typeFlags ⟨i⟩).parameter with
    | false =>
      have hno : ∀ d, ¬ (g.typeTree ⟨i⟩).Mentions d := fun d hd => by
        rw [(hg.parameter_iff hp).2 ⟨d, hd⟩] at hflag
        cases hflag
      exact (hg.matches_of_not_mentions hp ha fun d _ => hno d).congr
        fun s _ => matchType_of_flag hflag
    | true =>
      by_cases hname : ∃ d, g.type ⟨i⟩ = .typename d
      · obtain ⟨d, hd⟩ := hname
        by_cases hmem : d ∈ ds
        · exact (hg.matches_bind hp ha hmem hd).congr fun s hs => by
            rw [matchType_typename hflag hd, if_pos (hs ▸ hmem)]
        · have hno : ∀ d' ∈ ds, ¬ (g.typeTree ⟨i⟩).Mentions d' := fun d' hd' hm => by
            rw [hg.mentions_iff hp, hd] at hm
            simp only [TypeForm.typename.injEq, TypeForm.components, List.not_mem_nil, false_and,
              exists_false, or_false] at hm
            exact hmem (hm ▸ hd')
          exact (hg.matches_of_not_mentions hp ha hno).congr fun s hs => by
            rw [matchType_typename hflag hd, if_neg (hs ▸ hmem)]
      · have hne : ∀ d, g.type ⟨i⟩ ≠ .typename d := fun d hd => hname ⟨d, hd⟩
        have hcomp := hg.components_ne_nil hp hflag hne
        by_cases halike : (g.type ⟨i⟩).Alike (g.type a)
        · have hparts := hg.matches_parts hp ha fun x y hx hxc hyc => ih x.index hx hyc hxc
          exact (hg.matches_of_alike hp ha halike hparts).congr
            fun s _ => matchType_alike hflag halike
        · exact (hg.matches_of_unalike hp ha hcomp hne halike).congr
            fun s _ => matchType_unalike hflag hne halike

end Graph
end SemanticCore
