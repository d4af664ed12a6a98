import SemanticCore.Proofs.Action.Extension
import SemanticCore.Proofs.Action.Run

/-!
# A failed trial leaves no trace

Marks hold only sizes, so restoring them is right only if nothing below the marks was touched since
they were taken.  `Action.Run.keeps` says that this is so whatever a client does, as long as it
does not cut the context on its own: a run extends every context that the session extended when it
began, and so are the marks above it that the run takes along.

* `Action.Run.keeps` — **a run keeps everything that the session extended when it began.**
-/

set_option autoImplicit false
namespace SemanticCore
namespace Action

variable {ρ α : Type} {r : Rights}

/-- **What a run keeps.**  The marks that it takes along stay above everything that the session
extended when they were taken. -/
theorem Run.keeps (hr : ¬ r.cut) {ms ms' : List Marks} {s : Session ρ} {x : Action ρ α}
    (hrun : Run r ms s x ms') : ∀ {c : Context}, c.Extends s.context → (∀ m ∈ ms, m.Above c) →
      ((Course.extending c).Follows s x fun _ _ => True) ∧ ∀ m ∈ ms', m.Above c := by
  have hnone : ∀ c : Context, ∀ m ∈ ([] : List Marks), m.Above c := fun _ _ hm => by cases hm
  have hdeclares : ∀ {c : Context}, (Course.extending c : Course ρ).Declares :=
    Course.extending.declares
  induction hrun with
  | pure a => exact fun h hms => ⟨.pure h trivial, hms⟩
  | @fail _ _ _ e he =>
    intro c h hms
    refine ⟨.throw h ?_, hms⟩
    cases e with
    | misuse m => cases he
    | _ => rfl
  | bind hx ha hf ihx ihf =>
    intro c h hms
    obtain ⟨hkx, hms₁⟩ := ihx h hms
    have h₁ := hkx.leads
    rw [ha] at h₁
    obtain ⟨hkf, hms₂⟩ := ihf h₁ hms₁
    refine ⟨.bind h hkx fun a' s' _ _ _ ha' => ?_, hms₂⟩
    cases ha.symm.trans ha'
    exact hkf
  | bindError hx he ihx =>
    intro c h hms
    obtain ⟨hkx, hms₁⟩ := ihx h hms
    refine ⟨.bind h hkx fun a' s' _ _ _ ha' => ?_, hms₁⟩
    cases he.symm.trans ha'
  | observe hx ihx => exact fun h hms => ⟨.observe (ihx h hms).1, (ihx h hms).2⟩
  | client k => exact fun h hms => ⟨⟨h, fun _ _ => trivial, by rintro _ ⟨⟩⟩, hms⟩
  | build hx => exact fun h hms => ⟨.build h trivial, hms⟩
  | bindName hd => exact fun h hms => ⟨.modifyContext (h.bind _ _), hms⟩
  | lookupLocal n => exact fun h hms => ⟨.lookupLocal? h rfl n, hms⟩
  | require he => exact fun h hms => ⟨Course.extending.require h _, hms⟩
  | setLocation span => exact fun h hms => ⟨.modifyContext (h.setLocation span), hms⟩
  | warn d => exact fun h hms => ⟨.modifyContext (h.warn d), hms⟩
  | reportError d => exact fun h hms => ⟨Course.extending.reportError h d, hms⟩
  | report e => exact fun h hms => ⟨.context_bind (Course.extending.reportError h _), hms⟩
  | flush hcut => exact absurd hcut hr
  | truncate n hcut => exact absurd hcut hr
  | mark =>
    intro c h hms
    refine ⟨.context_bind (.pure h trivial), fun m hm => ?_⟩
    rcases List.mem_cons.1 hm with rfl | hm
    · exact h.marks_above
    · exact hms m hm
  | restore hm =>
    exact fun h hms => ⟨Course.extending.restore h (hms _ (hm.resolve_right hr)), hms⟩
  | trial hb ihb => exact fun h hms => ⟨Course.extending.trial h (ihb h hms).1, (ihb h hms).2⟩
  | @withScope _ _ _ _ owner _ ho hb ihb =>
    exact fun h hms =>
      ⟨Course.extending.within (f := .scope owner) h (ihb (.refl _) (hnone _)).1, hms⟩
  | @withTemplate _ _ _ _ params constraint _ hc hb ihb =>
    exact fun h hms =>
      ⟨Course.extending.within (f := .template params constraint) h (ihb (.refl _) (hnone _)).1,
        hms⟩
  | withRequirements hb ihb =>
    exact fun h hms =>
      ⟨Course.extending.within (f := .requirements) h (ihb (.refl _) (hnone _)).1, hms⟩
  | nameExpr n => exact fun h hms => ⟨Course.extending.nameExpr h n, hms⟩
  | call hc ha => exact fun h hms => ⟨Course.extending.call h _ _, hms⟩
  | variableDecl hn ht hw =>
    exact fun h hms => ⟨.variableDecl hdeclares h trivial trivial fun _ _ _ _ => trivial, hms⟩
  | functionDecl hn ht =>
    exact fun h hms => ⟨.functionDecl hdeclares h trivial trivial fun _ _ => trivial, hms⟩
  | classDecl hn => exact fun h hms => ⟨.classDecl hdeclares h trivial, hms⟩
  | defineClass hd hm =>
    exact fun h hms =>
      ⟨.defineClass hdeclares h ⟨trivial, trivial⟩ fun _ _ => ⟨trivial, trivial⟩, hms⟩
  | @defineFunction _ _ f _ ends hf hb hx ihb =>
    intro c h hms
    refine ⟨.defineFunction hdeclares h trivial fun {t params defn} hform => ?_, hms⟩
    exact Course.extending.framed (f := .scope f) h fun s₁ hs₁ _ h₁ =>
      (ihb t params defn s₁ hform hs₁ h₁ (hnone _)).1
  | @templateDecl _ _ params constraint _ ends hp hc hb hx ihb =>
    intro c h hms
    refine ⟨.templateDecl hdeclares h (fun _ _ => ⟨trivial, trivial⟩)
      (fun _ _ => trivial) ?_, hms⟩
    exact Course.extending.framed (f := .template params constraint) h fun s₁ hs₁ _ h₁ =>
      (ihb s₁ hs₁ h₁ (hnone _)).1.mono fun _ _ _ => ⟨trivial, trivial⟩
  | @conceptDecl _ _ _ params _ ends hn hp hb hx ihb =>
    intro c h hms
    refine ⟨.conceptDecl hdeclares h trivial (fun _ _ => ⟨trivial, trivial⟩) ?_, hms⟩
    exact Course.extending.framed (f := .template params none) h fun s₁ hs₁ _ h₁ =>
      (ihb s₁ hs₁ h₁ (hnone _)).1
  | requiresExpr ends ht hp hb hx ihb =>
    intro c h hms
    refine ⟨.requiresExpr hdeclares h (fun _ _ => trivial) (fun _ _ => trivial) ?_,
      hms⟩
    exact Course.extending.framed (f := .requirements) h fun s₁ hs₁ _ h₁ =>
      (ihb s₁ hs₁ h₁ (hnone _)).1.mono fun _ _ _ _ _ => trivial

/-- Programs are put together: whatever the first part does, the second goes on from there. -/
theorem Run.seq {β : Type} {ms : List Marks} {s : Session ρ} {x : Action ρ α} {f : α → Action ρ β}
    (hx : Run r ms s x ms) (hf : ∀ a s₁, x s = (.ok a, s₁) → Run r ms s₁ (f a) ms) :
    Run r ms s (x >>= f) ms := by
  rcases hxs : x s with ⟨e | a, s₁⟩
  · exact .bindError hx hxs
  · exact .bind hx hxs (hf a s₁ hxs)

/-! ## Trials -/

/-- **A failed trial leaves no trace.**  If a trial fails in a way that can be recovered from, the
context is what it was before, in all its contents, but for the place in the source.  The trial
fails as its body does, and no precondition of restoring marks is broken, in the body or after
it. -/
theorem trial_leaves_no_trace (hr : ¬ r.cut) {ms : List Marks} {s : Session ρ} {body : Action ρ α}
    (hrun : Run r [] s body ms) :
    (trial body s).1 = (body s).1 ∧
    (∀ e, (body s).1 = .error e → e ≠ .misuse .scopeDepth ∧ e ≠ .misuse .templateDepth) ∧
    ∀ e, (trial body s).1 = .error e → e.isRecoverable = true →
      (trial body s).2.context =
        { s.context with location := (trial body s).2.context.location } := by
  obtain ⟨hext, -, hdepth⟩ := (hrun.keeps hr (.refl _) fun _ hm => by cases hm).1
  have hdepths : ∀ e, (body s).1 = .error e →
      e ≠ .misuse .scopeDepth ∧ e ≠ .misuse .templateDepth := by
    refine fun e he => ⟨?_, ?_⟩
    · rintro rfl
      cases hdepth _ he
    · rintro rfl
      cases hdepth _ he
  rcases hb : body s with ⟨e | a, s'⟩
  · rw [hb] at hext hdepths
    cases he : e.isRecoverable with
    | false =>
      rw [trial_of_unrecoverable hb he]
      refine ⟨rfl, hdepths, ?_⟩
      rintro _ ⟨⟩ he'
      cases he.symm.trans he'
    | true =>
      rw [trial_of_recoverable hb he hext.restore_marks]
      exact ⟨rfl, hdepths, fun _ _ _ => rfl⟩
  · rw [trial_of_ok hb]
    exact ⟨rfl, by rintro _ ⟨⟩, by rintro _ ⟨⟩⟩

/-- A session inside a requires-expression, with a binding, a requirement and a report. -/
def deepSession : Session Unit where
  graph := default
  context :=
    let c := ((Context.initial default .structural).bind ⟨0⟩ ⟨0⟩).pushRequirements
    ((c.require default ⟨0⟩).2.bind ⟨1⟩ ⟨0⟩).warn (.ofMessage .warning .w2001 "first")
  client := ()

/-- Frames of their own inside a body, and in them a requirement, a report and another trial. -/
def deepFrames : Action Unit Unit :=
  withScope ⟨0⟩ <| withRequirements do
    let e ← require ⟨1⟩
    trial do
      report (.type (.notCallable e))
      throw .abandoned

/-- A body that keeps a mark, survives what fails in inner frames, goes back to the mark, adds to
the context and fails after all. -/
def deepBody : Action Unit Unit := do
  let m ← mark
  modifyContext (·.bind ⟨2⟩ ⟨0⟩)
  let _ ← observe deepFrames
  restore m
  modifyContext (·.bind ⟨2⟩ ⟨0⟩)
  modifyContext (·.warn (.ofMessage .warning .w2001 "second"))
  throw (.error (.type (.undeclaredName "x")))

theorem deepFrames_run {ms : List Marks} {s : Session Unit} : Run .uncut ms s deepFrames ms := by
  refine .withScope trivial (.withRequirements (?_ : Run .uncut [] _ _ []))
  refine .seq (.require trivial) fun e _ _ => .trial ?_
  exact .seq (.report _) fun _ _ _ => .fail rfl

theorem deepBody_run : Run .uncut [] deepSession deepBody [deepSession.context.marks] := by
  refine .bind .mark rfl (.seq (.bindName trivial) fun _ _ _ => ?_)
  refine .seq (.observe deepFrames_run) fun _ _ _ => ?_
  refine .seq (.restore (.inl List.mem_cons_self)) fun _ _ _ => ?_
  exact .seq (.bindName trivial) fun _ _ _ => .seq (.warn _) fun _ _ _ => .fail rfl

theorem trial_leaves_no_trace_deep :
    ¬ Rights.uncut.cut ∧ Run .uncut [] deepSession deepBody [deepSession.context.marks] ∧
    (trial deepBody deepSession).1 = .error (.error (.type (.undeclaredName "x"))) ∧
    (trial deepBody deepSession).1 = (deepBody deepSession).1 ∧
    (∀ e, (deepBody deepSession).1 = .error e →
      e ≠ .misuse .scopeDepth ∧ e ≠ .misuse .templateDepth) ∧
    ∀ e, (trial deepBody deepSession).1 = .error e → e.isRecoverable = true →
      (trial deepBody deepSession).2.context = { deepSession.context with
        location := (trial deepBody deepSession).2.context.location } :=
  ⟨id, deepBody_run, rfl, trial_leaves_no_trace id deepBody_run⟩

end Action
end SemanticCore
