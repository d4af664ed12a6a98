import SemanticCore.Proofs.Type.Instantiation

/-!
# Template parameters of an instantiated tree

A template parameter occurs in an instantiated tree if it occurred in the tree and nothing was put
in its place, or if it occurs in something that was put in place of a parameter
(`TypeTree.mentions_instantiate`).  Normalization does not matter: qualifiers mention nothing.
-/

set_option autoImplicit false
namespace SemanticCore
namespace TypeTree

variable {σ : DeclHandle → Option TypeTree} {ds : List DeclHandle} {θ : DeclHandle → TypeTree}
  {d e : DeclHandle}

theorem mentions_typename : (typename d).Mentions e ↔ e = d := by
  constructor
  · rintro (_ | ⟨hc, -⟩)
    · rfl
    · cases hc
  · rintro rfl
    exact .here

/-- A parameter occurs in a compound tree if it occurs in a tree directly inside. -/
theorem mentions_iff_children {t : TypeTree} (ht : ∀ x, t ≠ .typename x) :
    t.Mentions e ↔ ∃ c ∈ t.children, c.Mentions e := by
  constructor
  · intro h
    cases h with
    | here => exact absurd rfl (ht e)
    | child hc h => exact ⟨_, hc, h⟩
  · rintro ⟨c, hc, h⟩
    exact .child hc h

theorem mentions_qualified {base : TypeTree} {quals : Qualifiers} :
    (qualified base quals).Mentions e ↔ base.Mentions e := by
  rw [mentions_iff_children (by rintro x ⟨⟩)]
  simp [children]

theorem mentions_qualify {t : TypeTree} {quals : Qualifiers} :
    (t.qualify quals).Mentions e ↔ t.Mentions e := by
  cases t with
  | reference x => rfl
  | qualified base own => rw [qualify, mentions_qualified, mentions_qualified]
  | _ =>
    rw [qualify_of_plain quals rfl rfl]
    split
    · rfl
    · exact mentions_qualified

/-- The value type mentions only what the type mentions. -/
theorem mentions_of_value {t : TypeTree} (h : t.value.Mentions e) : t.Mentions e := by
  have hunqualified : ∀ u : TypeTree, u.unqualified.Mentions e → u.Mentions e := by
    intro u hu
    cases u with
    | qualified base quals => exact mentions_qualified.2 hu
    | _ => exact hu
  cases t with
  | reference x => exact .child List.mem_cons_self (hunqualified x h)
  | _ => exact hunqualified _ h

/-- What occurs in the replacement of a parameter occurs after replacing. -/
theorem mentions_replace {t : TypeTree} (ht : t.Mentions d) (hd : d ∈ ds) (h : (θ d).Mentions e) :
    (t.replace ds θ).Mentions e := by
  induction ht with
  | here => rwa [replace, if_pos hd]
  | @child t c hc _ ih =>
    cases t with
    | function params ret =>
      rw [replace]
      refine .child (c := c.replace ds θ) ?_ ih
      rcases List.mem_append.1 hc with hp | hr
      · exact List.mem_append_left _ (List.mem_map_of_mem hp)
      · rw [List.mem_singleton.1 hr]
        exact List.mem_append_right _ List.mem_cons_self
    | qualified base quals | pointer x | reference x | sequence x =>
      rw [List.mem_singleton.1 hc] at ih
      rw [replace]
      exact .child List.mem_cons_self ih
    | _ => cases hc

/-- A parameter occurs in a tree with other trees inside if it occurs in what became of a tree
inside. -/
theorem mentions_of_children {t u : TypeTree} {p : DeclHandle → Prop} {f : TypeTree → TypeTree}
    (ht : ∀ x, t ≠ .typename x) (hu : ∀ x, u ≠ .typename x)
    (hchildren : u.children = t.children.map f)
    (ih : ∀ c ∈ t.children, (f c).Mentions e ↔ ∃ d, c.Mentions d ∧ p d) :
    u.Mentions e ↔ ∃ d, t.Mentions d ∧ p d := by
  simp only [mentions_iff_children hu, mentions_iff_children ht, hchildren, List.mem_map,
    exists_exists_and_eq_and]
  constructor
  · rintro ⟨c, hc, h⟩
    obtain ⟨d, hd, hp⟩ := (ih c hc).1 h
    exact ⟨d, ⟨c, hc, hd⟩, hp⟩
  · rintro ⟨d, ⟨c, hc, hd⟩, hp⟩
    exact ⟨c, hc, (ih c hc).2 ⟨d, hd, hp⟩⟩

/-- **A parameter occurs in an instantiated tree** if it occurs in what stands there for a parameter
of the tree: the tree that was put in its place, or else the parameter itself. -/
theorem mentions_instantiate {t : TypeTree} : (t.instantiate σ).Mentions e ↔
    ∃ d, t.Mentions d ∧ ((σ d).getD (.typename d)).Mentions e := by
  induction t using children_induction with
  | step t ih =>
    cases t with
    | typename x =>
      rw [instantiate]
      simp only [mentions_typename, exists_eq_left]
    | function params ret =>
      rw [instantiate]
      refine mentions_of_children (by rintro _ ⟨⟩) (by rintro _ ⟨⟩) ?_ ih
      rw [children, children, List.map_append, List.map_singleton]
    | qualified base quals =>
      rw [instantiate, mentions_qualify, ih base List.mem_cons_self]
      simp only [mentions_qualified]
    | pointer x | reference x | sequence x =>
      rw [instantiate]
      exact mentions_of_children (by rintro _ ⟨⟩) (by rintro _ ⟨⟩) rfl ih
    | _ =>
      simp only [instantiate]
      exact mentions_of_children (f := id) (by rintro _ ⟨⟩) (by rintro _ ⟨⟩) rfl (by rintro _ ⟨⟩)

end TypeTree
end SemanticCore
