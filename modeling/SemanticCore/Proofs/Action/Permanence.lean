import Mathlib.Data.Nat.Find
import SemanticCore.Proofs.Action.Reachable
import SemanticCore.Proofs.Graph.Settling
import SemanticCore.Proofs.Interning.Tree

/-!
# What is in the graph stays there

Facts about nodes are computed once and never again: the flags of a type when it is entered, the
type of a function when it is declared, the answers of equivalence and deduction wherever they were
asked for.  They go on being right only because a node is what it was, whatever is built later.

`Graph.Permanent g g'` says what a client that knows the nodes of `g` can rely on in `g'`.  All
nodes are there with what they were built from, and names, types and constraints are found under
their handles when they are asked for again.  Of declarations this is true up to the place, which
may be changed as often as one likes, and up to one slot, which may be filled (`DeclForm.Fills`).

That a slot is filled *once* is not a fact about two graphs but about a run: from some step on the
declaration has its last form, and until then it had its first one.

* `Graph.Permanent.of_extends` — an extension keeps what a client relies on.
* `Graph.settles` — a slot is filled once.
* `Graph.Reachable.permanent` — **both, for whatever becomes of a reachable graph.**
-/

set_option autoImplicit false
namespace SemanticCore

open SemanticCore.Graph

/-! ## Filling a slot -/

/-- The second form is the first one with its empty slot filled. -/
inductive DeclForm.Fills : DeclForm → DeclForm → Prop
  | var (t : TypeHandle) (i : InitHandle) : Fills (.var t none) (.var t (some i))
  | function (t : TypeHandle) (params : List DeclHandle) (d : DefHandle) :
      Fills (.function t params none) (.function t params (some d))
  | ofClass (d : DefHandle) : Fills (.ofClass none) (.ofClass (some d))
  | concept (params : List DeclHandle) (d : DefHandle) :
      Fills (.concept params none) (.concept params (some d))

theorem DeclForm.Completes.eq_or_fills {f f' : DeclForm} (h : f.Completes f') :
    f' = f ∨ f.Fills f' := by
  cases h with
  | refl => exact .inl rfl
  | var t i => exact .inr (.var t i)
  | function t params d => exact .inr (.function t params d)
  | ofClass d => exact .inr (.ofClass d)
  | concept params d => exact .inr (.concept params d)

/-- A slot that was filled is full. -/
theorem DeclForm.Fills.eq_of_completes {f f' f'' : DeclForm} (h : f.Fills f')
    (h' : f'.Completes f'') : f'' = f' := by
  cases h <;> cases h' <;> rfl

namespace Graph

variable {g g' : Graph}

/-! ## What a client relies on -/

/-- Every node of the first graph is in the second under its handle, with what it was built from.
Names, types and constraints are found there again, and declarations may have been placed elsewhere
and have had a slot filled. -/
structure Permanent (g g' : Graph) : Prop where
  contains : ∀ {c : Category} (x : Handle c), g.contains x = true → g'.contains x = true
  name : ∀ n, g.contains n = true → g'.name n = g.name n
  type : ∀ t, g.contains t = true → g'.type t = g.type t
  typeFlags : ∀ t, g.contains t = true → g'.typeFlags t = g.typeFlags t
  expr : ∀ e, g.contains e = true → g'.expr e = g.expr e
  stmt : ∀ s, g.contains s = true → g'.stmt s = g.stmt s
  defn : ∀ d, g.contains d = true → g'.defn d = g.defn d
  init : ∀ i, g.contains i = true → g'.init i = g.init i
  cons : ∀ k, g.contains k = true → g'.cons k = g.cons k
  req : ∀ r, g.contains r = true → g'.req r = g.req r
  nameAgain : ∀ n, g.contains n = true → Build.name (g.name n) g' = (n, g')
  typeAgain : ∀ t, g.contains t = true → Build.type (g.type t) g' = (t, g')
  consAgain : ∀ k, g.contains k = true → Build.constraint (g.cons k) g' = (k, g')
  declName : ∀ d, g.contains d = true → (g'.decl d).name = (g.decl d).name
  declForm : ∀ d, g.contains d = true →
    (g'.decl d).form = (g.decl d).form ∨ (g.decl d).form.Fills (g'.decl d).form

/-- Asking for a name that is stored. -/
theorem build_name_of_getElem? {f : NameForm} {n : NameHandle}
    (h : g.names.nodes[n.index]? = some f) : Build.name f g = (n, g) := by
  have hsame := Interned.intern_of_getElem? h
  change (Handle.mk (g.names.intern f).1, { g with names := (g.names.intern f).2 }) = _
  rw [hsame]

/-- Asking for a constraint that is stored. -/
theorem build_constraint_of_getElem? {f : ConsForm} {k : ConsHandle}
    (h : g.constraints.nodes[k.index]? = some f) : Build.constraint f g = (k, g) := by
  have hsame := Interned.intern_of_getElem? h
  change (Handle.mk (g.constraints.intern f).1,
    { g with constraints := (g.constraints.intern f).2 }) = _
  rw [hsame]

/-- **An extension keeps what a client relies on.** -/
theorem Permanent.of_extends (hg : g.WellFormed) (h : g.Extends g') : g.Permanent g' where
  contains _ hx := h.contains hx
  name _ hn := h.name hn
  type _ ht := h.type ht
  typeFlags _ ht := h.typeFlags hg.flags_size ht
  expr _ he := h.expr he
  stmt _ hs := h.stmt hs
  defn _ hd := h.defn hd
  init _ hi := h.init hi
  cons _ hk := h.cons hk
  req _ hr := h.req hr
  nameAgain n hn := build_name_of_getElem? (h.names _ _ (name_get n hn))
  typeAgain t ht := Build.type_of_getElem? (h.types _ _ (type_get t ht))
  consAgain k hk := build_constraint_of_getElem? (h.constraints _ _ (cons_get k hk))
  declName _ hd := (h.decl hd).name
  declForm _ hd := (h.decl hd).form.eq_or_fills

/-! ## Runs without end -/

theorem extends_of_le {run : ℕ → Graph} (hrun : ∀ n, (run n).Extends (run (n + 1))) {m n : ℕ}
    (hmn : m ≤ n) : (run m).Extends (run n) := by
  induction hmn with
  | refl => exact .refl _
  | step _ ih => exact ih.trans (hrun _)

/-- **A slot is filled once.**  There is a step from which on the declaration stays as it is, and
before that step it was as it was at first. -/
theorem settles {run : ℕ → Graph} (hrun : ∀ n, (run n).Extends (run (n + 1))) {m : ℕ}
    {d : DeclHandle} (hd : (run m).contains d = true) :
    ∃ k, m ≤ k ∧
      (∀ n, m ≤ n → n < k → ((run n).decl d).form = ((run m).decl d).form) ∧
      ∀ n, k ≤ n → ((run n).decl d).form = ((run k).decl d).form := by
  classical
  by_cases hchange : ∃ n, m ≤ n ∧ ((run n).decl d).form ≠ ((run m).decl d).form
  · -- The first change fills the slot, and a full slot is not changed again.
    obtain ⟨hmk, hne⟩ := Nat.find_spec hchange
    refine ⟨Nat.find hchange, hmk, fun n hmn hn => ?_, fun n hn => ?_⟩
    · by_contra hnm
      exact Nat.find_min hchange hn ⟨hmn, hnm⟩
    · have hfills := ((extends_of_le hrun hmk).decl hd).form.eq_or_fills.resolve_left hne
      have hk := (extends_of_le hrun hmk).contains hd
      exact hfills.eq_of_completes ((extends_of_le hrun hn).decl hk).form
  · refine ⟨m, Nat.le_refl m, fun n hmn hn => absurd hmn (Nat.not_le_of_lt hn), fun n hn => ?_⟩
    by_contra hne
    exact hchange ⟨n, hn, hne⟩

/-- **The graph only grows.**  In a run of operations and actions that may go on forever, every node
keeps its handle and what it was built from, and the form of a declaration changes at most once, by
having its empty slot filled. -/
theorem Reachable.permanent {run : ℕ → Graph} (hstart : (run 0).Reachable)
    (hrun : ∀ n, (run n).Evolves (run (n + 1))) :
    (∀ m n, m ≤ n → (run m).Permanent (run n)) ∧
      ∀ m d, (run m).contains d = true → ∃ k, m ≤ k ∧
        (∀ n, m ≤ n → n < k → ((run n).decl d).form = ((run m).decl d).form) ∧
        ∀ n, k ≤ n → ((run n).decl d).form = ((run k).decl d).form := by
  have hwf : ∀ n, (run n).WellFormed := by
    intro n
    induction n with
    | zero => exact hstart.wellFormed
    | succ n ih => exact ((hrun n).grows ih).wellFormed ih
  have hext : ∀ n, (run n).Extends (run (n + 1)) := fun n => ((hrun n).grows (hwf n)).extends
  exact ⟨fun m n hmn => .of_extends (hwf m) (extends_of_le hext hmn), fun m d hd => settles hext hd⟩

/-- The graph of a variable of type `int`. -/
def declaredInt : Graph :=
  (Build.variableDecl .globalName ⟨3⟩ none (Build.intType (.initial .empty 32)).2).2

theorem declaredInt_reachable : declaredInt.Reachable := by
  have hint := (Reachable.initial .empty 32).operation (x := Build.intType) .intType
  exact hint.operation (x := Build.variableDecl .globalName ⟨3⟩ none)
    (.variableDecl rfl rfl (by rintro _ ⟨⟩))

/-- The variable with an initializer. -/
def initializedInt : Graph :=
  ((Build.setInitializer ⟨1⟩ ⟨0⟩).run ((Build.initDefault ⟨3⟩).run declaredInt).2).2

/-- The variable is initialized in the third step. -/
def initializingInt : ℕ → Graph
  | 0 | 1 | 2 => declaredInt
  | _ + 3 => initializedInt

theorem initializingInt_evolves (n : ℕ) :
    (initializingInt n).Evolves (initializingInt (n + 1)) := by
  match n with
  | 0 | 1 | _ + 3 => exact .refl
  | 2 =>
    have hinit : declaredInt.Evolves ((Build.initDefault ⟨3⟩).run declaredInt).2 :=
      Evolves.refl.operation (x := (Build.initDefault ⟨3⟩).run)
        (.initDefault (by decide +kernel))
    exact hinit.operation (x := (Build.setInitializer ⟨1⟩ ⟨0⟩).run)
      (.setInitializer (by decide +kernel) (by decide +kernel))

theorem Reachable.permanent_initializingInt :
    (initializingInt 0).Reachable ∧
      (∀ n, (initializingInt n).Evolves (initializingInt (n + 1))) ∧
      (declaredInt.decl ⟨1⟩).form = .var ⟨3⟩ none ∧
      (initializedInt.decl ⟨1⟩).form = .var ⟨3⟩ (some ⟨0⟩) ∧
      (∀ m n, m ≤ n → (initializingInt m).Permanent (initializingInt n)) ∧
      ∀ m d, (initializingInt m).contains d = true → ∃ k, m ≤ k ∧
        (∀ n, m ≤ n → n < k →
          ((initializingInt n).decl d).form = ((initializingInt m).decl d).form) ∧
        ∀ n, k ≤ n → ((initializingInt n).decl d).form = ((initializingInt k).decl d).form :=
  ⟨declaredInt_reachable, initializingInt_evolves, by decide +kernel, by decide +kernel,
    Reachable.permanent declaredInt_reachable initializingInt_evolves⟩

end Graph
end SemanticCore
