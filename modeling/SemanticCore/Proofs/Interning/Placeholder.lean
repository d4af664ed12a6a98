import SemanticCore.Proofs.Action.Reachable
import SemanticCore.Proofs.Interning.Request

/-!
# The numbers of placeholders

Placeholders differ by their numbers only, and asking for one whose number is in use gives the old
one back.  The numbers come from one counter, which names and types share and which goes around
after `UInt32.size` of them, so a placeholder is new as long as the graph has fewer placeholders
than that.

* `Graph.Numbered` — the placeholders are counted, and the next number is above all of theirs.
* `Graph.Addition.numbered` and `Graph.Reachable.numbered` — one step, and every run, keeps it so.
* `Graph.Reachable.fresh_auto`, `fresh_declauto`, `fresh_placeholder` — **what is returned is new**,
  until the numbers are used up.
* `Graph.exists_reachable_not_fresh` — after that it need not be.
-/

set_option autoImplicit false
namespace SemanticCore

/-- The number of a placeholder. -/
def NameForm.number? : NameForm → Option UInt32
  | placeholder n => some n
  | _ => none

/-- The number of a placeholder, `auto` or `decltype(auto)`. -/
def TypeForm.number? : TypeForm → Option UInt32
  | auto n | declauto n => some n
  | _ => none

/-- A form with a number fits a graph only if it is there. -/
theorem NameForm.Fits.stored {g : Graph} {f : NameForm} (hf : f.Fits g) {n : UInt32}
    (hn : f.number? = some n) : ∃ i : Nat, g.names.nodes[i]? = some f := by
  cases f with
  | placeholder m =>
    obtain ⟨x, hx, hform⟩ := hf
    exact ⟨x.index, (getElem?_eq_some_getD (Graph.contains_iff.1 hx) default).trans
      (congrArg some hform)⟩
  | _ => cases hn

theorem TypeForm.Fits.stored {g : Graph} {f : TypeForm} (hf : f.Fits g) {n : UInt32}
    (hn : f.number? = some n) : ∃ i : Nat, g.types.nodes[i]? = some f := by
  cases f with
  | auto m | declauto m =>
    obtain ⟨x, hx, hform⟩ := hf
    exact ⟨x.index, (getElem?_eq_some_getD (Graph.contains_iff.1 hx) default).trans
      (congrArg some hform)⟩
  | _ => cases hn

namespace Graph

/-- The numbers of the placeholders, those of names before those of types. -/
def numbers (g : Graph) : List UInt32 :=
  g.names.nodes.toList.filterMap NameForm.number? ++
    g.types.nodes.toList.filterMap TypeForm.number?

/-- How many placeholders there are, names and types together. -/
def placeholders (g : Graph) : Nat :=
  g.numbers.length

/-- As long as the numbers last, as many have been handed out as there are placeholders, and the
next one is above all of theirs. -/
def Numbered (g : Graph) : Prop :=
  g.placeholders < UInt32.size →
    g.nextPlaceholder.toNat = g.placeholders ∧ ∀ n ∈ g.numbers, n < g.nextPlaceholder

variable {g g' : Graph}

theorem mem_numbers_of_name {i : Nat} {f : NameForm} {n : UInt32}
    (h : g.names.nodes[i]? = some f) (hn : f.number? = some n) : n ∈ g.numbers := by
  have hf : f ∈ g.names.nodes.toList := Array.mem_toList_iff.2 (Array.mem_of_getElem? h)
  exact List.mem_append_left _ (List.mem_filterMap.2 ⟨f, hf, hn⟩)

theorem mem_numbers_of_type {i : Nat} {f : TypeForm} {n : UInt32}
    (h : g.types.nodes[i]? = some f) (hn : f.number? = some n) : n ∈ g.numbers := by
  have hf : f ∈ g.types.nodes.toList := Array.mem_toList_iff.2 (Array.mem_of_getElem? h)
  exact List.mem_append_right _ (List.mem_filterMap.2 ⟨f, hf, hn⟩)

/-! ## What a request does to the numbers -/

/-- A name adds its number, if it has one and is not there yet. -/
theorem numbers_name (f : NameForm) (g : Graph) :
    Graph.numbers (Build.name f g).2 = g.numbers ∧ (∀ n, f.number? = some n → n ∈ g.numbers) ∨
      (∀ i : Nat, g.names.nodes[i]? ≠ some f) ∧
        ∃ n, f.number? = some n ∧ (Graph.numbers (Build.name f g).2).Perm (n :: g.numbers) := by
  rcases g.names.intern_cases f with ⟨i, hi, hsame⟩ | ⟨hnew, -, hnodes⟩
  · refine .inl ⟨?_, fun n hn => mem_numbers_of_name hi hn⟩
    rw [numbers, show (Build.name f g).2.names = (g.names.intern f).2 from rfl, hsame]
    rfl
  · have hnodes : (Build.name f g).2.names.nodes = g.names.nodes.push f := hnodes
    rw [numbers, hnodes, Array.toList_push, List.filterMap_append]
    cases hn : f.number? with
    | none =>
      refine .inl ⟨?_, by rintro _ ⟨⟩⟩
      rw [List.filterMap_cons_none hn, List.filterMap_nil, List.append_nil]
      rfl
    | some n =>
      refine .inr ⟨hnew, n, rfl, ?_⟩
      rw [List.filterMap_cons_some hn, List.filterMap_nil, List.append_assoc]
      exact List.perm_middle

/-- A type adds its number, if it has one and is not there yet. -/
theorem numbers_type (f : TypeForm) (g : Graph) :
    Graph.numbers (Build.type f g).2 = g.numbers ∧ (∀ n, f.number? = some n → n ∈ g.numbers) ∨
      (∀ i : Nat, g.types.nodes[i]? ≠ some f) ∧
        ∃ n, f.number? = some n ∧ (Graph.numbers (Build.type f g).2).Perm (n :: g.numbers) := by
  rcases Build.type_cases f g with ⟨t, hi, ht⟩ | ⟨hnew, types, hnodes, ht⟩
  · rw [ht]
    exact .inl ⟨rfl, fun n hn => mem_numbers_of_type hi hn⟩
  · rw [ht, numbers]
    dsimp only
    rw [hnodes, Array.toList_push, List.filterMap_append]
    cases hn : f.number? with
    | none =>
      refine .inl ⟨?_, by rintro _ ⟨⟩⟩
      rw [List.filterMap_cons_none hn, List.filterMap_nil, List.append_nil]
      rfl
    | some n =>
      refine .inr ⟨hnew, n, rfl, ?_⟩
      rw [List.filterMap_cons_some hn, List.filterMap_nil, ← List.append_assoc]
      exact List.perm_append_singleton n g.numbers

theorem nextPlaceholder_type (f : TypeForm) (g : Graph) :
    (Build.type f g).2.nextPlaceholder = g.nextPlaceholder := by
  rcases Build.type_cases f g with ⟨t, -, ht⟩ | ⟨-, types, -, ht⟩
  · rw [ht]
  · rw [ht]

/-! ## One step -/

theorem Numbered.of_eq (h : g.Numbered) (hnumbers : g'.numbers = g.numbers)
    (hnext : g'.nextPlaceholder = g.nextPlaceholder) : g'.Numbered := by
  rwa [Numbered, placeholders, hnumbers, hnext]

/-- While the numbers last, the next one is not in use. -/
theorem Numbered.next_notMem (h : g.Numbered) (hbound : g.placeholders < UInt32.size) :
    g.nextPlaceholder ∉ g.numbers := fun hmem =>
  absurd ((h hbound).2 _ hmem) (UInt32.lt_irrefl _)

/-- A placeholder that draws the next number adds it, and the counter goes one up.  It does not go
around, since the number was not the last one. -/
theorem Numbered.draw (h : g.Numbered) (hnext : g'.nextPlaceholder = g.nextPlaceholder + 1)
    (hnumbers : g'.numbers = g.numbers ∧ g.nextPlaceholder ∈ g.numbers ∨
      g'.numbers.Perm (g.nextPlaceholder :: g.numbers)) : g'.Numbered := by
  intro hbound
  rcases hnumbers with ⟨hsame, hmem⟩ | hperm
  · rw [placeholders, hsame] at hbound
    exact absurd hmem (h.next_notMem hbound)
  · have hcount : g'.placeholders = g.placeholders + 1 := hperm.length_eq
    rw [hcount] at hbound ⊢
    obtain ⟨hvalue, habove⟩ := h (Nat.lt_of_succ_lt hbound)
    have hstep : g'.nextPlaceholder.toNat = g.placeholders + 1 := by
      rw [hnext, UInt32.toNat_add, hvalue]
      exact Nat.mod_eq_of_lt hbound
    refine ⟨hstep, fun n hn => ?_⟩
    rw [UInt32.lt_iff_toNat_lt, hstep]
    rcases List.mem_cons.1 (hperm.mem_iff.1 hn) with rfl | hn
    · omega
    · have hbelow := UInt32.lt_iff_toNat_lt.1 (habove n hn)
      omega

theorem Numbered.name (h : g.Numbered) {f : NameForm} (hf : f.Fits g) :
    Graph.Numbered (Build.name f g).2 := by
  rcases numbers_name f g with ⟨hsame, -⟩ | ⟨hnew, n, hn, -⟩
  · exact h.of_eq hsame rfl
  · obtain ⟨i, hi⟩ := hf.stored hn
    exact absurd hi (hnew i)

theorem Numbered.type (h : g.Numbered) {f : TypeForm} (hf : f.Fits g) :
    Graph.Numbered (Build.type f g).2 := by
  rcases numbers_type f g with ⟨hsame, -⟩ | ⟨hnew, n, hn, -⟩
  · exact h.of_eq hsame (nextPlaceholder_type f g)
  · obtain ⟨i, hi⟩ := hf.stored hn
    exact absurd hi (hnew i)

theorem Numbered.placeholderName (h : g.Numbered) :
    Graph.Numbered (Build.placeholderName g).2 := by
  refine h.draw rfl ?_
  rcases numbers_name (.placeholder g.nextPlaceholder) (Build.fresh g).2 with
    ⟨hsame, hmem⟩ | ⟨-, n, hn, hperm⟩
  · exact .inl ⟨hsame, hmem _ rfl⟩
  · cases hn
    exact .inr hperm

/-- A type whose number is the next one. -/
theorem Numbered.drawType (h : g.Numbered) {f : TypeForm}
    (hf : f.number? = some g.nextPlaceholder) :
    Graph.Numbered (Build.type f (Build.fresh g).2).2 := by
  refine h.draw (nextPlaceholder_type f _) ?_
  rcases numbers_type f (Build.fresh g).2 with ⟨hsame, hmem⟩ | ⟨-, n, hn, hperm⟩
  · exact .inl ⟨hsame, hmem _ hf⟩
  · cases hf.symm.trans hn
    exact .inr hperm

/-- **Every step keeps the placeholders numbered.** -/
theorem Addition.numbered (ha : g.Addition g') (h : g.Numbered) : g'.Numbered := by
  cases ha with
  | placeholderName => exact h.placeholderName
  | autoType | declautoType => exact h.drawType rfl
  | name hf => exact h.name hf
  | type hf => exact h.type hf
  | symbol s | constraint hf | expr hf | decl hn hf | stmt hf | defn hf | init hf | req hf
  | place d hc => exact h.of_eq rfl rfl
  | @define d x hx =>
    rcases g.define_cases d x with hsame | ⟨-, hsame⟩
    · exact h.of_eq (by rw [hsame]) (by rw [hsame])
    · exact h.of_eq (by rw [hsame]; rfl) (by rw [hsame])
  | @setInit d i hi =>
    rcases g.setInit_cases d i with hsame | ⟨_, -, hsame⟩
    · exact h.of_eq (by rw [hsame]) (by rw [hsame])
    · exact h.of_eq (by rw [hsame]; rfl) (by rw [hsame])

/-! ## Every run -/

/-- An empty translation unit has no placeholders, and the numbers begin with zero. -/
theorem numbered_initial (symbols : SymbolTable) (intPrecision : UInt16) :
    (Graph.initial symbols intPrecision).Numbered :=
  fun _ => ⟨rfl, List.forall_mem_nil _⟩

theorem Grows.numbered (hgrow : g.Grows g') (h : g.Numbered) : g'.Numbered := by
  induction hgrow with
  | refl => exact h
  | tail _ ha ih => exact ha.numbered ih

/-- **In every reachable graph the placeholders are numbered.** -/
theorem Reachable.numbered (hg : g.Reachable) : g.Numbered := by
  obtain ⟨symbols, intPrecision, hgrow⟩ := hg.grows
  exact hgrow.numbered (numbered_initial symbols intPrecision)

theorem Reachable.fresh_auto (hg : g.Reachable) (hbound : g.placeholders < UInt32.size) :
    g.Fresh Build.autoType :=
  fresh_type (f := .auto g.nextPlaceholder)
    (fun _ hi => hg.numbered.next_notMem hbound (mem_numbers_of_type hi rfl)) rfl

theorem Reachable.fresh_declauto (hg : g.Reachable) (hbound : g.placeholders < UInt32.size) :
    g.Fresh Build.declautoType :=
  fresh_type (f := .declauto g.nextPlaceholder)
    (fun _ hi => hg.numbered.next_notMem hbound (mem_numbers_of_type hi rfl)) rfl

theorem Reachable.fresh_placeholder (hg : g.Reachable) (hbound : g.placeholders < UInt32.size) :
    g.Fresh Build.placeholderName :=
  fresh_name (f := .placeholder g.nextPlaceholder)
    (fun _ hi => hg.numbered.next_notMem hbound (mem_numbers_of_name hi rfl)) rfl

/-! ## When the numbers are used up -/

/-- The graph of one `auto`, of type 3, and then so many placeholder names. -/
def crowded : Nat → Graph
  | 0 => (Build.autoType (.initial .empty 32)).2
  | n + 1 => (Build.placeholderName (crowded n)).2

theorem crowded_reachable (n : Nat) : (crowded n).Reachable := by
  induction n with
  | zero => exact (Reachable.initial .empty 32).operation .autoType
  | succ n ih => exact ih.operation .placeholderName

/-- Names leave the types alone and move the counter on. -/
theorem crowded_counter (n : Nat) :
    (crowded n).types = (crowded 0).types ∧ (crowded n).nextPlaceholder = .ofNat (n + 1) := by
  induction n with
  | zero => exact ⟨rfl, rfl⟩
  | succ n ih =>
    refine ⟨ih.1, ?_⟩
    rw [UInt32.ofNat_add]
    exact congrArg (· + 1) ih.2

/-- A placeholder is one name more at most. -/
theorem placeholders_crowded_le (n : Nat) : (crowded n).placeholders ≤ n + 1 := by
  induction n with
  | zero => exact Nat.le_refl 1
  | succ n ih =>
    rcases numbers_name (.placeholder (crowded n).nextPlaceholder) (Build.fresh (crowded n)).2 with
      ⟨hsame, -⟩ | ⟨-, m, -, hperm⟩
    · exact Nat.le_succ_of_le ((congrArg List.length hsame).le.trans ih)
    · exact hperm.length_eq.le.trans (Nat.succ_le_succ ih)

/-- The type that has the next number is returned again. -/
theorem not_fresh_auto {i : Nat} (hi : g.types.nodes[i]? = some (.auto g.nextPlaceholder)) :
    ¬ g.Fresh Build.autoType := by
  rintro ⟨hnew, -⟩
  have hrun : Build.autoType g = Build.type (.auto g.nextPlaceholder) (Build.fresh g).2 := rfl
  rw [hrun] at hnew
  rcases Build.type_cases (.auto g.nextPlaceholder) (Build.fresh g).2 with ⟨t, ht, hsame⟩ | ⟨hne, -⟩
  · rw [hsame] at hnew
    have hold : g.contains t = true := contains_iff.2 (Array.getElem?_eq_some_iff.1 ht).1
    rw [hold] at hnew
    cases hnew
  · exact hne i hi

/-- **The bound on the number of placeholders is sharp**: with one placeholder for each number, the
first `auto` may be returned again. -/
theorem exists_reachable_not_fresh :
    ∃ g : Graph, g.Reachable ∧ g.placeholders = UInt32.size ∧ ¬ g.Fresh Build.autoType := by
  obtain ⟨n, hn⟩ : ∃ n, n + 1 = UInt32.size := ⟨UInt32.size - 1, rfl⟩
  obtain ⟨htypes, hnext⟩ := crowded_counter n
  rw [hn] at hnext
  have hused : ¬ (crowded n).Fresh Build.autoType := by
    refine not_fresh_auto (i := 3) ?_
    rw [htypes, hnext]
    rfl
  have hle := placeholders_crowded_le n
  have hge : ¬ (crowded n).placeholders < UInt32.size := fun hlt =>
    hused ((crowded_reachable n).fresh_auto hlt)
  exact ⟨crowded n, crowded_reachable n, by omega, hused⟩

end Graph
end SemanticCore
