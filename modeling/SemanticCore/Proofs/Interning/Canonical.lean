import SemanticCore.Proofs.Interning.Placeholder

/-!
# Handles stand for trees

Comparing two handles takes the place of comparing what they name, so equal handles have to mean
equal trees, down to the leaves, and the other way round.  `Graph.Canonical` says this of a graph,
together with what keeps it true: nothing is entered twice, and what is to be different from
everything gets a new handle.

Placeholders are the one thing that can run out: they are told apart by numbers of 32 bits, so a new
one is new only while the graph has fewer placeholders than there are numbers
(`Graph.exists_reachable_not_fresh`).

* `Graph.canonical_of_reachable` — **every graph that can be reached is canonical.**
-/

set_option autoImplicit false
namespace SemanticCore
namespace Graph

variable {g : Graph}

/-- Handles of interned nodes stand for trees: equal handles for equal trees, no second handle for
a tree that has one, and a new handle for whatever is to be different from everything, as long as
there is a number left for it. -/
structure Canonical (g : Graph) : Prop where
  type_eq_iff : ∀ s t : TypeHandle, g.contains s = true → g.contains t = true →
    (s = t ↔ g.typeTree s = g.typeTree t)
  name_eq_iff : ∀ m n : NameHandle, g.contains m = true → g.contains n = true →
    (m = n ↔ g.nameTree m = g.nameTree n)
  cons_eq_iff : ∀ c d : ConsHandle, g.contains c = true → g.contains d = true →
    (c = d ↔ g.consTree c = g.consTree d)
  type_request : ∀ {x want}, g.TypeRequest x want → g.Answers x Graph.typeTree want
  name_request : ∀ {x want}, g.NameRequest x want → g.Answers x Graph.nameTree want
  cons_request : ∀ {x want}, g.ConsRequest x want → g.Answers x Graph.consTree want
  fresh_auto : g.placeholders < UInt32.size → g.Fresh Build.autoType
  fresh_declauto : g.placeholders < UInt32.size → g.Fresh Build.declautoType
  fresh_placeholder : g.placeholders < UInt32.size → g.Fresh Build.placeholderName

/-- **Every reachable graph is canonical.** -/
theorem canonical_of_reachable (hg : g.Reachable) : g.Canonical where
  type_eq_iff _ _ hs ht := ⟨congrArg _, hg.wellFormed.typeTree_injective hs ht⟩
  name_eq_iff _ _ hm hn := ⟨congrArg _, hg.wellFormed.nameTree_injective hm hn⟩
  cons_eq_iff _ _ hc hd := ⟨congrArg _, hg.wellFormed.consTree_injective hc hd⟩
  type_request := hg.wellFormed.answers_typeRequest
  name_request := hg.wellFormed.answers_nameRequest
  cons_request := hg.wellFormed.answers_consRequest
  fresh_auto := hg.fresh_auto
  fresh_declauto := hg.fresh_declauto
  fresh_placeholder := hg.fresh_placeholder

/-- The graph of a new `auto`, of `int`, and of a pointer to `const int`. -/
def pointers : Graph :=
  let build : Build Unit := do
    let _ ← Build.autoType
    let i ← Build.intType
    let c ← Build.qualifiedType i .const
    let _ ← Build.pointerType c
  (build (.initial .empty 32)).2

theorem pointers_reachable : pointers.Reachable := by
  have hauto := (Reachable.initial .empty 32).operation .autoType
  have hint := hauto.operation .intType
  have hconst := hint.operation (.qualifiedType .const Build.Makes.intType.2)
  exact hconst.operation (.pointerType
    (Build.Makes.qualifiedType hint.wellFormed .const Build.Makes.intType.2).2)

/-- Its one placeholder leaves numbers for more of them. -/
theorem canonical_of_reachable_pointers :
    pointers.Reachable ∧ pointers.placeholders < UInt32.size ∧ pointers.Canonical :=
  ⟨pointers_reachable, by decide +kernel, canonical_of_reachable pointers_reachable⟩

end Graph
end SemanticCore
