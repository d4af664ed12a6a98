import SemanticCore.Proofs.Type.Mention

/-!
# Renaming template parameters in a tree

A function on trees that goes through a tree and changes nothing but template parameters is known by
what it makes of these (`TypeTree.Pointwise.ext`).  Replacing parameters and renaming them are two
such functions, and what they have to do with each other is read off the parameters.

* `TypeTree.mentions_rename` — the renamed parameters occur in a renamed tree.
* `TypeTree.replace_rename` — **replacing renamed parameters is replacing the parameters.**
-/

set_option autoImplicit false
namespace SemanticCore
namespace TypeTree

variable {t : TypeTree} {f k : TypeTree → TypeTree} {σ : DeclHandle → DeclHandle}
  {old new : List DeclHandle} {θ : DeclHandle → TypeTree} {d e : DeclHandle}

/-! ## Functions that change template parameters only -/

/-- The tree with the trees directly inside it changed. -/
def mapChildren (f : TypeTree → TypeTree) : TypeTree → TypeTree
  | function params ret => .function (params.map f) (f ret)
  | qualified base quals => .qualified (f base) quals
  | pointer t => .pointer (f t)
  | reference t => .reference (f t)
  | sequence t => .sequence (f t)
  | t => t

/-- The function goes through a tree and changes template parameters only. -/
def Pointwise (f : TypeTree → TypeTree) : Prop :=
  ∀ t : TypeTree, (∀ d, t ≠ .typename d) → f t = t.mapChildren f

theorem mapChildren_congr (h : ∀ c ∈ t.children, f c = k c) :
    t.mapChildren f = t.mapChildren k := by
  cases t with
  | function params ret =>
    have hparams : ∀ p ∈ params, f p = k p := fun p hp => h p (List.mem_append_left _ hp)
    rw [mapChildren, mapChildren, List.map_congr_left hparams,
      h ret (List.mem_append_right _ List.mem_cons_self)]
  | qualified base quals => rw [mapChildren, mapChildren, h base List.mem_cons_self]
  | pointer x | reference x | sequence x => rw [mapChildren, mapChildren, h x List.mem_cons_self]
  | _ => rfl

theorem mapChildren_mapChildren : (t.mapChildren f).mapChildren k = t.mapChildren (k ∘ f) := by
  cases t <;> simp [mapChildren]

theorem mapChildren_id : t.mapChildren id = t := by
  cases t <;> simp [mapChildren]

theorem children_mapChildren : (t.mapChildren f).children = t.children.map f := by
  cases t <;> simp [mapChildren, children]

theorem mapChildren_ne_typename (h : ∀ d, t ≠ .typename d) :
    ∀ d, t.mapChildren f ≠ .typename d := by
  cases t with
  | typename d => exact absurd rfl (h d)
  | _ => rintro d ⟨⟩

namespace Pointwise

theorem id : Pointwise id :=
  fun _ _ => mapChildren_id.symm

theorem comp (hk : Pointwise k) (hf : Pointwise f) : Pointwise (k ∘ f) := by
  intro t ht
  rw [Function.comp_apply, hf t ht, hk _ (mapChildren_ne_typename ht), mapChildren_mapChildren]

theorem replace (ds : List DeclHandle) (θ : DeclHandle → TypeTree) :
    Pointwise fun t => t.replace ds θ := by
  intro t ht
  cases t with
  | typename d => exact absurd rfl (ht d)
  | _ => simp only [TypeTree.replace, mapChildren]

/-- **Such functions are the same on a tree if they are the same on the parameters in it.** -/
theorem ext (hf : Pointwise f) (hk : Pointwise k)
    (h : ∀ d, t.Mentions d → f (.typename d) = k (.typename d)) : f t = k t := by
  induction t using children_induction with
  | step t ih =>
    by_cases ht : ∃ d, t = .typename d
    · obtain ⟨d, rfl⟩ := ht
      exact h d .here
    · have hne : ∀ d, t ≠ .typename d := not_exists.1 ht
      rw [hf t hne, hk t hne]
      exact mapChildren_congr fun c hc => ih c hc fun d hd => h d (.child hc hd)

end Pointwise

/-! ## Renaming -/

/-- The tree with every template parameter renamed. -/
def rename (σ : DeclHandle → DeclHandle) : TypeTree → TypeTree
  | typename d => .typename (σ d)
  | function params ret => .function (params.map fun t => t.rename σ) (ret.rename σ)
  | qualified base quals => .qualified (base.rename σ) quals
  | pointer t => .pointer (t.rename σ)
  | reference t => .reference (t.rename σ)
  | sequence t => .sequence (t.rename σ)
  | t => t

theorem rename_typename : (typename d).rename σ = .typename (σ d) := by
  rw [rename]

theorem Pointwise.rename (σ : DeclHandle → DeclHandle) : Pointwise fun t => t.rename σ := by
  intro t ht
  cases t with
  | typename d => exact absurd rfl (ht d)
  | _ => simp only [TypeTree.rename, mapChildren]

/-- Renaming parameters that do not occur does nothing. -/
theorem rename_eq_self (h : ∀ d, t.Mentions d → σ d = d) : t.rename σ = t :=
  (Pointwise.rename σ).ext .id fun d hd => by rw [rename_typename, h d hd]; rfl

theorem rename_rename (hσ : ∀ d, σ (σ d) = d) : (t.rename σ).rename σ = t :=
  ((Pointwise.rename σ).comp (.rename σ)).ext .id fun d _ => by
    rw [Function.comp_apply, rename_typename, rename_typename, hσ]
    rfl

theorem mentions_rename (hσ : ∀ d, σ (σ d) = d) :
    (t.rename σ).Mentions e ↔ t.Mentions (σ e) := by
  induction t using children_induction with
  | step t ih =>
    by_cases ht : ∃ d, t = .typename d
    · obtain ⟨d, rfl⟩ := ht
      rw [rename_typename, mentions_typename, mentions_typename]
      constructor
      · rintro rfl
        exact hσ d
      · rintro rfl
        exact (hσ e).symm
    · have hne : ∀ d, t ≠ .typename d := not_exists.1 ht
      have hmap : t.rename σ = t.mapChildren fun c => c.rename σ := Pointwise.rename σ t hne
      rw [hmap, mentions_iff_children (mapChildren_ne_typename hne), mentions_iff_children hne,
        children_mapChildren]
      simp only [List.mem_map, exists_exists_and_eq_and]
      exact exists_congr fun c => and_congr_right fun hc => ih c hc

/-- **Replacing renamed parameters is replacing the parameters**, if those that occur are renamed to
parameters that are replaced exactly if they are themselves to be replaced, and else are kept. -/
theorem replace_rename (h : ∀ d, t.Mentions d → (σ d ∈ new ↔ d ∈ old) ∧ (d ∉ old → σ d = d)) :
    (t.rename σ).replace new θ = t.replace old fun d => θ (σ d) := by
  refine ((Pointwise.replace new θ).comp (.rename σ)).ext (.replace old _) fun d hd => ?_
  obtain ⟨hmem, hkept⟩ := h d hd
  rw [Function.comp_apply, rename_typename, replace, replace]
  by_cases hold : d ∈ old
  · rw [if_pos (hmem.2 hold), if_pos hold]
  · rw [if_neg (mt hmem.1 hold), if_neg hold, hkept hold]

/-- A renamed parameter is still a parameter, so nothing becomes a reference or qualified. -/
theorem value_rename : (t.rename σ).value = t.value.rename σ := by
  cases t with
  | reference x =>
    rw [rename]
    cases x <;> simp only [rename, value, nonReference, unqualified]
  | _ => simp only [rename, value, nonReference, unqualified]

end TypeTree
end SemanticCore
