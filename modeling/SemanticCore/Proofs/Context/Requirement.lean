import SemanticCore.Proofs.Context.Extension
import SemanticCore.Proofs.Expr.Erasure

/-!
# What a requires-expression requires

Each requires-expression keeps a list of what it requires, and requiring an expression searches the
list for an equivalent one.  The answers of the search are answers about the graph at that moment,
while the list stays and the graph grows; and trials cut the list at its end.

`Context.RequiresOnce g c` says that no list holds two equivalent expressions.  Neither growth nor
cutting can break that: equivalence of two expressions that exist does not change any more, and
what is cut out of a list without repetition has none either.

* `Context.require_spec` — **what requiring an expression does**, to the list and to the others.
* `Context.RequiresOnce.require`, `extend`, `trim` — how expressions stay required once.
-/

set_option autoImplicit false
namespace SemanticCore.Context

open SemanticCore.Graph

variable {g g' : Graph} {c c' c'' : Context} {e : ExprHandle}

/-! ## Requiring an expression -/

section Require

variable {required : List ExprHandle} {outer : List (List ExprHandle)}

theorem require_of_found (h : c.requirements = required :: outer) {x : ExprHandle}
    (hx : (required.find? fun x => g.equivalent x e) = some x) : c.require g e = (x, c) := by
  rw [require, h]
  dsimp only
  rw [hx]

theorem require_of_new (h : c.requirements = required :: outer)
    (hnew : (required.find? fun x => g.equivalent x e) = none) :
    c.require g e = (e, { c with requirements := (required ++ [e]) :: outer }) := by
  rw [require, h]
  dsimp only
  rw [hnew]

/-- **Requiring an expression** returns an equivalent one that the innermost requires-expression
requires from then on.  What the others require stays, and so does what the innermost one requires,
exactly if an equivalent expression was among it. -/
theorem require_spec (g : Graph) (e : ExprHandle) (h : c.requirements = required :: outer) :
    ∃ x required', c.require g e = (x, { c with requirements := required' :: outer }) ∧
      x ∈ required' ∧ g.equivalent x e = true ∧
      (required' = required ↔ ∃ y ∈ required, g.equivalent y e = true) := by
  cases hfind : required.find? fun x => g.equivalent x e with
  | some x =>
    have hmem := List.mem_of_find?_eq_some hfind
    have hsame : g.equivalent x e = true := List.find?_some (p := fun x => g.equivalent x e) hfind
    refine ⟨x, required, ?_, hmem, hsame, fun _ => ⟨x, hmem, hsame⟩, fun _ => rfl⟩
    rw [require_of_found h hfind, ← h]
  | none =>
    refine ⟨e, required ++ [e], require_of_new h hfind, List.mem_append_right _ List.mem_cons_self,
      equivalent_refl g e, fun hlonger => ?_, ?_⟩
    · exact absurd (List.append_right_eq_self.1 hlonger) (List.cons_ne_nil e [])
    · rintro ⟨y, hy, hsame⟩
      exact absurd hsame (List.find?_eq_none.1 hfind y hy)

end Require

/-! ## Requiring less -/

/-- Whatever a requires-expression requires in the second context, one does in the first, in the
same order. -/
def Trimmed (c c' : Context) : Prop :=
  ∀ frame' ∈ c'.requirements, ∃ frame ∈ c.requirements, frame'.Sublist frame

namespace Trimmed

theorem of_subset (h : c'.requirements ⊆ c.requirements) : c.Trimmed c' :=
  fun frame hframe => ⟨frame, h hframe, .refl frame⟩

theorem of_eq (h : c'.requirements = c.requirements) : c.Trimmed c' :=
  of_subset (h ▸ List.Subset.refl _)

theorem refl (c : Context) : c.Trimmed c :=
  of_eq rfl

theorem trans (h : c.Trimmed c') (h' : c'.Trimmed c'') : c.Trimmed c'' := by
  intro frame'' hframe''
  obtain ⟨frame', hframe', hsub'⟩ := h' frame'' hframe''
  obtain ⟨frame, hframe, hsub⟩ := h frame' hframe'
  exact ⟨frame, hframe, hsub'.trans hsub⟩

/-- Restoring marks, whichever they are, cuts the innermost list after leaving some lists. -/
theorem restore {m : Marks} (h : c.restore m = .ok c') : c.Trimmed c' := by
  have hkept : oldest m.requirements c.requirements ⊆ c.requirements := List.drop_subset _ _
  intro frame' hframe'
  rw [eq_of_restore h] at hframe'
  change frame' ∈ cutRequired m.required (oldest m.requirements c.requirements) at hframe'
  cases hopen : oldest m.requirements c.requirements with
  | nil =>
    rw [hopen] at hframe'
    cases hframe'
  | cons required outer =>
    rw [hopen] at hframe' hkept
    rcases List.mem_cons.1 hframe' with rfl | hmem
    · exact ⟨required, hkept List.mem_cons_self, List.take_sublist _ _⟩
    · exact ⟨frame', hkept (List.mem_cons_of_mem _ hmem), .refl frame'⟩

theorem popScope (c : Context) : c.Trimmed c.popScope := by
  refine of_eq ?_
  rw [Context.popScope]
  split <;> rfl

theorem popTemplate (c : Context) : c.Trimmed c.popTemplate :=
  popScope { c with templates := c.templates.tail }

theorem popRequirements (c : Context) : c.Trimmed c.popRequirements := by
  have htail : c.Trimmed { c with requirements := c.requirements.tail } :=
    of_subset (List.tail_subset _)
  exact htail.trans (popScope _)

end Trimmed

/-! ## Requiring once -/

/-- What is required is in the graph, and no two expressions that one requires-expression requires
are equivalent. -/
structure RequiresOnce (g : Graph) (c : Context) : Prop where
  contains : ∀ frame ∈ c.requirements, ∀ e ∈ frame, g.contains e = true
  distinct : ∀ frame ∈ c.requirements, frame.Pairwise fun x y => g.equivalent x y = false

namespace RequiresOnce

theorem initial (g : Graph) (config : Config) (oracle : Oracle) :
    (Context.initial config oracle).RequiresOnce g :=
  ⟨nofun, nofun⟩

/-- A requires-expression that was just entered requires nothing. -/
theorem pushRequirements (hc : c.RequiresOnce g) : c.pushRequirements.RequiresOnce g where
  contains := List.forall_mem_cons.2 ⟨nofun, hc.contains⟩
  distinct := List.forall_mem_cons.2 ⟨.nil, hc.distinct⟩

theorem trim (hc : c.RequiresOnce g) (h : c.Trimmed c') : c'.RequiresOnce g where
  contains frame' hframe' e he := by
    obtain ⟨frame, hframe, hsub⟩ := h frame' hframe'
    exact hc.contains frame hframe e (hsub.subset he)
  distinct frame' hframe' := by
    obtain ⟨frame, hframe, hsub⟩ := h frame' hframe'
    exact (hc.distinct frame hframe).sublist hsub

/-- **Expressions that are not equivalent do not become equivalent when the graph grows.** -/
theorem extend (hc : c.RequiresOnce g) (hg : g.WellFormed) (hg' : g'.WellFormed)
    (h : g.Extends g') : c.RequiresOnce g' where
  contains frame hframe e he := h.contains (hc.contains frame hframe e he)
  distinct frame hframe := by
    have hin := hc.contains frame hframe
    refine (hc.distinct frame hframe).imp_of_mem fun hx hy hne => ?_
    rwa [hg.equivalent_extend hg' h (hin _ hx) (hin _ hy)]

/-- **What is required anew is equivalent to nothing that is required already.** -/
theorem require (hc : c.RequiresOnce g) (he : g.contains e = true) :
    (c.require g e).2.RequiresOnce g := by
  cases h : c.requirements with
  | nil => rwa [Context.require, h]
  | cons required outer =>
    have hin := h ▸ hc.contains
    have hdistinct := h ▸ hc.distinct
    cases hfind : required.find? fun x => g.equivalent x e with
    | some x => rwa [require_of_found h hfind]
    | none =>
      obtain ⟨hrequired, houter⟩ := List.forall_mem_cons.1 hin
      obtain ⟨hfirst, hrest⟩ := List.forall_mem_cons.1 hdistinct
      rw [require_of_new h hfind]
      refine ⟨List.forall_mem_cons.2 ⟨fun x hx => ?_, houter⟩,
        List.forall_mem_cons.2 ⟨List.pairwise_append.2 ⟨hfirst, ?_, fun x hx y hy => ?_⟩, hrest⟩⟩
      · rcases List.mem_append.1 hx with hx | hx
        · exact hrequired x hx
        · rwa [List.mem_singleton.1 hx]
      · exact List.pairwise_singleton _ e
      · rw [List.mem_singleton.1 hy]
        exact eq_false_of_ne_true (List.find?_eq_none.1 hfind x hx)

/-- No two expressions are equivalent, whichever of them was required first. -/
theorem pairwise (hc : c.RequiresOnce g) (hg : g.WellFormed) {frame : List ExprHandle}
    (hframe : frame ∈ c.requirements) :
    frame.Pairwise fun x y => g.equivalent x y = false ∧ g.equivalent y x = false := by
  have hin := hc.contains frame hframe
  refine (hc.distinct frame hframe).imp_of_mem fun hx hy hne => ⟨hne, ?_⟩
  refine eq_false_of_ne_true fun hsame => ?_
  rw [hg.equivalent_symm (hin _ hy) (hin _ hx) hsame] at hne
  cases hne

end RequiresOnce
end SemanticCore.Context
