import Mathlib.Data.List.Infix
import SemanticCore.Context.Marks
import SemanticCore.Proofs.Diagnostic.Queue

/-!
# Contexts that only grew

While a frame is innermost, the context grows: bindings, required expressions and diagnostics are
added after those that are there, and what the enclosing frames hold is not touched.
`Context.Extends` says that one context is another one that grew in this way.

Marks are only sizes.  What makes them enough to undo a trial is that the context between marking
and restoring is an extension of the one that was marked.

* `Context.Extends.restore_marks` — restoring the marks of a context in an extension of it gives
  the context back, up to the place in the source.
* `Context.Extends.restore` — restoring marks that were taken later cuts an extension to a smaller
  one, and neither of the two preconditions of `Context.restore` is broken.
* `Context.Extends.popScope`, `popTemplate`, `popRequirements` — leaving a frame gives back what
  was there on entering it, but for the reports made inside.
-/

set_option autoImplicit false
namespace SemanticCore

namespace Context

/-! ## What a list that has the latest first held earlier -/

variable {α : Type} {as bs : List α}

theorem oldest_of_suffix (h : as <:+ bs) : oldest as.length bs = as := by
  obtain ⟨new, rfl⟩ := h
  rw [oldest, List.length_append, Nat.add_sub_cancel, List.drop_left]

theorem suffix_oldest (h : as <:+ bs) {n : Nat} (hn : as.length ≤ n) : as <:+ oldest n bs := by
  obtain ⟨new, rfl⟩ := h
  rw [oldest, List.drop_append_of_le_length (by rw [List.length_append]; omega)]
  exact List.suffix_append _ _

/-! ## Required expressions -/

/-- More expressions are required by the innermost requires-expression, if there is one. -/
def RequiresMore : List (List ExprHandle) → List (List ExprHandle) → Prop
  | [], frames => frames = []
  | required :: outer, frames => ∃ more, frames = (required ++ more) :: outer

namespace RequiresMore

variable {fs fs' fs'' : List (List ExprHandle)}

theorem refl (fs : List (List ExprHandle)) : RequiresMore fs fs := by
  cases fs with
  | nil => exact rfl
  | cons required outer => exact ⟨[], by rw [List.append_nil]⟩

theorem trans (h : RequiresMore fs fs') (h' : RequiresMore fs' fs'') : RequiresMore fs fs'' := by
  cases fs with
  | nil => rw [RequiresMore] at h; subst h; exact h'
  | cons required outer =>
    obtain ⟨more, rfl⟩ := h
    obtain ⟨more', rfl⟩ := h'
    exact ⟨more ++ more', by rw [List.append_assoc]⟩

theorem length_eq (h : RequiresMore fs fs') : fs'.length = fs.length := by
  cases fs with
  | nil => rw [RequiresMore] at h; subst h; rfl
  | cons required outer => obtain ⟨more, rfl⟩ := h; rfl

theorem length_le (h : RequiresMore fs fs') :
    (fs.headD []).length ≤ (fs'.headD []).length := by
  cases fs with
  | nil => exact Nat.zero_le _
  | cons required outer =>
    obtain ⟨more, rfl⟩ := h
    exact List.length_append ▸ Nat.le_add_right _ _

theorem cutRequired (h : RequiresMore fs fs') {n : Nat} (hn : (fs.headD []).length ≤ n) :
    RequiresMore fs (Context.cutRequired n fs') := by
  cases fs with
  | nil => rw [RequiresMore] at h; subst h; exact rfl
  | cons required outer =>
    obtain ⟨more, rfl⟩ := h
    refine ⟨more.take (n - required.length), ?_⟩
    rw [List.headD_cons] at hn
    rw [Context.cutRequired, List.take_append, List.take_of_length_le hn]

theorem cutRequired_eq (h : RequiresMore fs fs') :
    Context.cutRequired (fs.headD []).length fs' = fs := by
  cases fs with
  | nil => rw [RequiresMore] at h; subst h; rfl
  | cons required outer =>
    obtain ⟨more, rfl⟩ := h
    rw [Context.cutRequired, List.headD_cons, List.take_left]

end RequiresMore

/-! ## Extensions -/

/-- The context grew in its innermost frames, and the same frames are open. -/
structure Extends (c c' : Context) : Prop where
  config : c'.config = c.config
  scopes : c'.scopes = c.scopes
  bindings : c.bindings <:+ c'.bindings
  templates : c'.templates = c.templates
  requirements : RequiresMore c.requirements c'.requirements
  diagnostics : ∃ ds, c'.diagnostics = c.diagnostics.append ds
  oracle : c'.oracle = c.oracle

namespace Extends

variable {c c' c'' : Context}

theorem refl (c : Context) : c.Extends c :=
  ⟨rfl, rfl, List.suffix_refl _, rfl, .refl _, ⟨[], DiagnosticQueue.append_nil.symm⟩, rfl⟩

theorem trans (h : c.Extends c') (h' : c'.Extends c'') : c.Extends c'' where
  config := h'.config.trans h.config
  scopes := h'.scopes.trans h.scopes
  bindings := h.bindings.trans h'.bindings
  templates := h'.templates.trans h.templates
  requirements := h.requirements.trans h'.requirements
  diagnostics := by
    obtain ⟨ds, hds⟩ := h.diagnostics
    obtain ⟨es, hes⟩ := h'.diagnostics
    exact ⟨ds ++ es, by rw [hes, hds, DiagnosticQueue.append_append]⟩
  oracle := h'.oracle.trans h.oracle

theorem bind (h : c.Extends c') (n : NameHandle) (d : DeclHandle) : c.Extends (c'.bind n d) :=
  { h with bindings := h.bindings.trans (List.suffix_cons _ _) }

theorem setLocation (h : c.Extends c') (span : Span) : c.Extends (c'.setLocation span) :=
  { h with }

theorem warn (h : c.Extends c') (d : Diagnostic) : c.Extends (c'.warn d) := by
  obtain ⟨ds, hds⟩ := h.diagnostics
  obtain ⟨es, hes⟩ := DiagnosticQueue.add_eq_append (q := c'.diagnostics) d
  exact { h with diagnostics := ⟨ds ++ es, hes.trans (by rw [hds, DiagnosticQueue.append_append])⟩ }

/-- An error is queued like any other diagnostic. -/
theorem reportError (h : c.Extends c') {d : Diagnostic} (hr : c'.reportError d = .ok c'') :
    c.Extends c'' := by
  rw [Context.reportError, DiagnosticQueue.report] at hr
  split at hr
  · next q hq =>
    split at hq
    · cases hq; cases hr; exact h.warn d
    · cases hq
  · cases hr

theorem require (h : c.Extends c') (g : Graph) (e : ExprHandle) :
    c.Extends (c'.require g e).2 := by
  unfold Context.require
  split
  · exact h
  · next required outer hreq =>
    split
    · exact h
    · exact { h with requirements := h.requirements.trans (hreq ▸ ⟨[e], rfl⟩) }

/-! ## Leaving frames -/

/-- Leaving a scope removes what was bound in it. -/
theorem popScope {owner : DeclHandle} (h : (c.pushScope owner).Extends c') :
    c.Extends c'.popScope := by
  have hscopes : c'.scopes = ⟨owner, c.bindings.length⟩ :: c.scopes := h.scopes
  have hbindings : oldest c.bindings.length c'.bindings = c.bindings :=
    oldest_of_suffix h.bindings
  simp only [Context.popScope, hscopes, hbindings]
  exact ⟨h.config, rfl, List.suffix_refl _, h.templates, h.requirements, h.diagnostics, h.oracle⟩

theorem popTemplate {params : List DeclHandle} {constraint : Option ExprHandle}
    (h : (c.pushTemplate params constraint).Extends c') : c.Extends c'.popTemplate := by
  have hscope : (c.pushScope c.currentScope).Extends { c' with templates := c'.templates.tail } :=
    { h with templates := congrArg List.tail h.templates }
  exact hscope.popScope

/-- The frame that is left holds all that was required inside, since no other frame was open. -/
theorem popRequirements (h : c.pushRequirements.Extends c') : c.Extends c'.popRequirements := by
  have hframes : RequiresMore c.requirements c'.requirements.tail := by
    obtain ⟨more, hmore⟩ := h.requirements
    rw [hmore]
    exact .refl _
  have hscope : (c.pushScope c.currentScope).Extends
      { c' with requirements := c'.requirements.tail } :=
    { h with requirements := hframes }
  exact hscope.popScope

end Extends
end Context

/-! ## Restoring marks -/

/-- The marks are those of an extension of the context. -/
structure Marks.Above (m : Marks) (c : Context) : Prop where
  scopes : m.scopes = c.depth
  bindings : c.bindings.length ≤ m.bindings
  templates : m.templates = c.templates.length
  requirements : m.requirements = c.requirements.length
  required : c.requiredExprs.length ≤ m.required
  diagnostics : c.diagnostics.size ≤ m.diagnostics

namespace Context

/-- What restoring marks leaves, if they can be restored. -/
theorem eq_of_restore {c c' : Context} {m : Marks} (h : c.restore m = .ok c') :
    c' = { c with
      bindings := oldest m.bindings c.bindings
      requirements := cutRequired m.required (oldest m.requirements c.requirements)
      diagnostics := c.diagnostics.truncate m.diagnostics } := by
  rw [restore] at h
  split at h
  · cases h
  · split at h
    · cases h
    · cases h
      rfl

namespace Extends

variable {c c' : Context}

theorem marks_above (h : c.Extends c') : c'.marks.Above c where
  scopes := congrArg (·.length + 1) h.scopes
  bindings := h.bindings.length_le
  templates := congrArg List.length h.templates
  requirements := h.requirements.length_eq
  required := h.requirements.length_le
  diagnostics := by
    obtain ⟨ds, hds⟩ := h.diagnostics
    change c.diagnostics.diagnostics.length ≤ c'.diagnostics.diagnostics.length
    rw [hds, DiagnosticQueue.append, List.length_append]
    exact Nat.le_add_right _ _

/-- In an extension the preconditions hold, and no requires-expression has to be left. -/
theorem restore_eq (h : c.Extends c') {m : Marks} (hm : m.Above c) :
    c'.restore m = .ok { c' with
      bindings := oldest m.bindings c'.bindings
      requirements := cutRequired m.required c'.requirements
      diagnostics := c'.diagnostics.truncate m.diagnostics } := by
  have hdepth : c'.depth = m.scopes :=
    (congrArg (·.length + 1) h.scopes).trans hm.scopes.symm
  have htemplates : c'.templates.length = m.templates :=
    (congrArg List.length h.templates).trans hm.templates.symm
  have hframes : c'.requirements.length = m.requirements :=
    h.requirements.length_eq.trans hm.requirements.symm
  have hopen := hframes ▸ oldest_of_suffix (List.suffix_refl c'.requirements)
  rw [Context.restore, if_neg (not_not_intro hdepth), if_neg (not_not_intro htemplates), hopen]

/-- **Restoring marks taken in an extension leads to an extension.** -/
theorem restore (h : c.Extends c') {m : Marks} (hm : m.Above c) :
    ∃ c'', c'.restore m = .ok c'' ∧ c.Extends c'' := by
  refine ⟨_, h.restore_eq hm, { h with bindings := ?_, requirements := ?_, diagnostics := ?_ }⟩
  · exact suffix_oldest h.bindings hm.bindings
  · exact h.requirements.cutRequired hm.required
  · obtain ⟨ds, hds⟩ := h.diagnostics
    exact ⟨_, (congrArg (·.truncate m.diagnostics) hds).trans
      (DiagnosticQueue.truncate_append hm.diagnostics)⟩

/-- **Restoring the marks of a context gives the context back**, but for the place in the
source. -/
theorem restore_marks (h : c.Extends c') :
    c'.restore c.marks = .ok { c with location := c'.location } := by
  obtain ⟨ds, hds⟩ := h.diagnostics
  have hqueue : c'.diagnostics.truncate c.diagnostics.size = c.diagnostics := by
    rw [hds, DiagnosticQueue.truncate_append (Nat.le_refl _), Nat.sub_self, List.take_zero,
      DiagnosticQueue.append_nil]
  rw [h.restore_eq (marks_above (.refl c))]
  simp only [marks, oldest_of_suffix h.bindings, requiredExprs, h.requirements.cutRequired_eq,
    hqueue, h.config, h.scopes, h.templates, h.oracle]

end Extends
end Context
end SemanticCore
