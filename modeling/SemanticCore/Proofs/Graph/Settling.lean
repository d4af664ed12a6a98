import Mathlib.Data.List.Forall2
import SemanticCore.Proofs.Graph.Constructor

/-!
# Computations that settle

Types are interned, so a computation that asks for the same types again adds nothing the second
time.  `Build.Settles g x Q` says of the computation `x`, started on the graph `g`, that it adds to
the graph, that its result satisfies `Q`, and that from then on the matter is settled: *on every
later graph it gives the same result and adds nothing*.

The property is shown like `Build.Yields`, by the rule for the first step of a computation.  A step
that reads the graph has to read the same in every extension (`Build.Settles.get_bind`).
-/

set_option autoImplicit false
namespace SemanticCore

open SemanticCore.Graph

variable {α β : Type} {g : Graph}

/-! ## Lists of results -/

/-- Lists have the same image if their members do, pair by pair. -/
theorem map_eq_map_of_forall₂ {γ : Type} {f : α → γ} {k : β → γ} {as : List α} {bs : List β}
    (h : List.Forall₂ (fun a b => f a = k b) as bs) : as.map f = bs.map k := by
  induction h with
  | nil => rfl
  | cons hab _ ih => rw [List.map_cons, List.map_cons, hab, ih]

/-- Every member of the second list is related to a member of the first one. -/
theorem exists_of_forall₂_right {R : α → β → Prop} {as : List α} {bs : List β}
    (h : List.Forall₂ R as bs) {b : β} (hb : b ∈ bs) : ∃ a ∈ as, R a b := by
  induction h with
  | nil => cases hb
  | cons hab _ ih =>
    rcases List.mem_cons.1 hb with rfl | hb
    · exact ⟨_, List.mem_cons_self, hab⟩
    · obtain ⟨a, ha, hR⟩ := ih hb
      exact ⟨a, List.mem_cons_of_mem _ ha, hR⟩

/-- What a pair says of its second member holds of every member of the second list. -/
theorem forall_right_of_forall₂ {R : α → β → Prop} {P : β → Prop} {as : List α} {bs : List β}
    (h : List.Forall₂ R as bs) (hP : ∀ a b, R a b → P b) : ∀ b ∈ bs, P b := by
  intro b hb
  obtain ⟨a, -, hab⟩ := exists_of_forall₂_right h hb
  exact hP a b hab

/-! ## Settling -/

/-- Asking for the form of a type gives that type. -/
theorem Build.type_of_getElem? {f : TypeForm} {t : TypeHandle}
    (h : g.types.nodes[t.index]? = some f) : Build.type f g = (t, g) := by
  rcases Build.type_cases f g with ⟨s, hs, hrun⟩ | ⟨hne, -⟩
  · rw [hrun, Handle.ext (Interned.index_unique hs h)]
  · exact absurd h (hne _)

/-- The computation adds to the graph and its result satisfies `Q`.  Once it has been run, running
it again gives the same result and adds nothing. -/
structure Build.Settles (g : Graph) (x : Build α) (Q : α → Graph → Prop) : Prop where
  yields : Build.Yields g x Q
  again : ∀ g', Graph.Extends (x g).2 g' → x g' = ((x g).1, g')

namespace Build.Settles

variable {x : Build α} {f : α → Build β} {P : α → Graph → Prop} {Q : β → Graph → Prop}

theorem pure {b : β} (h : Q b g) : Settles g (Pure.pure b : Build β) Q :=
  ⟨.pure h, fun _ _ => rfl⟩

theorem bind (hg : g.WellFormed) (hx : Settles g x P)
    (hf : ∀ a g', g.Grows g' → g'.WellFormed → P a g' → Settles g' (f a) Q) :
    Settles g (x >>= f) Q := by
  refine ⟨.bind hg hx.yields fun a g' hgrow hg' ha => (hf a g' hgrow hg' ha).yields,
    fun g' hext => ?_⟩
  have hrest := hf (x g).1 (x g).2 hx.yields.1 (hx.yields.1.wellFormed hg) hx.yields.2
  have hagain := hx.again g' (hrest.yields.1.extends.trans hext)
  calc (x >>= f) g' = f (x g').1 (x g').2 := rfl
    _ = f (x g).1 g' := by rw [hagain]
    _ = _ := hrest.again g' hext

/-- What is read has to be the same in every extension. -/
theorem get_bind {f : Graph → Build β} (h : Settles g (f g) Q)
    (hf : ∀ g', g.Extends g' → f g' = f g) : Settles g ((get : Build Graph) >>= f) Q := by
  refine ⟨h.yields, fun g' hext => ?_⟩
  have hread := hf g' (h.yields.1.extends.trans hext)
  calc ((get : Build Graph) >>= f) g' = f g' g' := rfl
    _ = f g g' := by rw [hread]
    _ = _ := h.again g' hext

/-- A list of computations.  What each result satisfies has to go on holding as the graph grows,
since it is asked for at the end. -/
theorem mapM {P : α → β → Graph → Prop}
    (hP : ∀ {g g' a b}, g.WellFormed → Graph.Grows g g' → P a b g → P a b g')
    {f : α → Build β} (as : List α) {g : Graph} (hg : g.WellFormed)
    (h : ∀ a ∈ as, ∀ g', g.Grows g' → g'.WellFormed → Settles g' (f a) (P a)) :
    Settles g (as.mapM f) fun bs g' => List.Forall₂ (P · · g') as bs := by
  induction as generalizing g with
  | nil =>
    rw [List.mapM_nil]
    exact .pure .nil
  | cons a as ih =>
    rw [List.mapM_cons]
    refine .bind hg (h a List.mem_cons_self g (.refl g) hg) fun b g₁ hgrow hg₁ hb => ?_
    have hrest := ih hg₁ fun x hx g' hgrow' =>
      h x (List.mem_cons_of_mem _ hx) g' (hgrow.trans hgrow')
    exact .bind hg₁ hrest fun bs g₂ hgrow' _ hbs => .pure (.cons (hP hg₁ hgrow' hb) hbs)

/-- A type that was asked for is found again. -/
theorem type {f : TypeForm} (hf : f.Fits g) :
    Settles g (Build.type f) fun t g' => g'.contains t = true ∧ g'.type t = f :=
  ⟨.type hf, fun _ hext => type_of_getElem? (hext.types _ _ (Build.getElem?_type f g))⟩

end Build.Settles
end SemanticCore
