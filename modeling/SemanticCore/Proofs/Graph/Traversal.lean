import SemanticCore.Proofs.Constraint.NormalForm
import SemanticCore.Proofs.Expr.Comparison
import SemanticCore.Proofs.Template.Instantiation

/-!
# Walks through the graph

Types are matched and substituted into by recursion on their components, expressions are compared
and normalized by recursion on the expressions inside them, and the normal forms of a constraint
are computed by recursion on its operands.  Each of these functions asks of a part that it comes
before the whole, and takes the part as it is if it does not.

In a well-formed graph the question is idle.  Parts come before the whole, so that no walk goes on
for ever (`Graph.WellFormed.wellFounded_components` and its neighbours), and every function is the
recursion without the question.  `Graph.matchStep` and the other steps say what a function does with
a node, given what it does with the parts, and `Graph.WellFormed.matchType_eq` and its neighbours
say that this is what it does.
-/

set_option autoImplicit false
namespace SemanticCore

open SemanticCore.Graph

/-! ## Steps -/

namespace Graph

variable (g : Graph)

/-- How two types are matched, given how their components are. -/
def matchStep
    (part : TypeHandle → TypeHandle → Substitution → Except DeductionError Substitution)
    (p a : TypeHandle) (s : Substitution) : Except DeductionError Substitution :=
  let same : Except DeductionError Substitution :=
    if p = a then .ok s else .error (.mismatch p a)
  if (g.typeFlags p).parameter then
    match g.type p, g.type a with
    | .typename d, _ => if s.params.contains d then s.bindType d a else same
    | .pointer x, .pointer y => part x y s
    | .reference x, .reference y => part x y s
    | .sequence x, .sequence y => part x y s
    | .qualified x q, .qualified y r => if q = r then part x y s else same
    | .function xs x, .function ys y =>
      if xs.length = ys.length then do
        let s ← (xs.zip ys).foldlM (fun s (x, y) => part x y s) s
        part x y s
      else
        same
    | _, _ => same
  else
    same

/-- The disjunctive form of a constraint, given those of its operands. -/
def disjunctiveStep (part : ConsHandle → List Clause) (c : ConsHandle) : List Clause :=
  match g.cons c with
  | .disjunction lhs rhs => part lhs ++ part rhs
  | .conjunction lhs rhs => distribute (part lhs) (part rhs)
  | _ => [[c]]

/-- The conjunctive form of a constraint, given those of its operands. -/
def conjunctiveStep (part : ConsHandle → List Clause) (c : ConsHandle) : List Clause :=
  match g.cons c with
  | .conjunction lhs rhs => part lhs ++ part rhs
  | .disjunction lhs rhs => distribute (part lhs) (part rhs)
  | _ => [[c]]

/-- What is reached from a constraint through conjunctions, given what is from its operands. -/
def conjunctsStep (part : ConsHandle → List ConsHandle) (c : ConsHandle) : List ConsHandle :=
  match g.cons c with
  | .conjunction lhs rhs => part lhs ++ part rhs
  | _ => [c]

end Graph

namespace Build

/-- How a type is substituted into, given how its components are. -/
def substituteStep (part : TypeHandle → Build TypeHandle) (s : Substitution) (t : TypeHandle) :
    Build TypeHandle := do
  if ((← get).typeFlags t).parameter then
    match (← get).type t with
    | .typename d => pure ((s.type? d).getD t)
    | .function params ret =>
      let params ← params.mapM part
      let ret ← part ret
      functionTypeOf params ret
    | .qualified base quals =>
      let base ← part base
      qualifiedType base quals
    | .pointer target =>
      let target ← part target
      pointerType target
    | .reference target =>
      let target ← part target
      referenceType target
    | .sequence element =>
      let element ← part element
      sequenceType element
    | _ => pure t
  else
    pure t

/-- How an expression is normalized, given how the operands of a connective are. -/
def normalizeStep (part : ExprHandle → Build ConsHandle) (e : ExprHandle) : Build ConsHandle := do
  match ((← get).expr e).form with
  | .binary .and lhs rhs =>
    let l ← part lhs
    let r ← part rhs
    conjunction l r
  | .binary .or lhs rhs =>
    let l ← part lhs
    let r ← part rhs
    disjunction l r
  | .check concept args =>
    match ← (conceptConstraint concept args).run with
    | .ok c => pure c
    | .error _ => predicate e
  | _ => predicate e

end Build

/-! ## A step depends on the parts only -/

section Congr

variable {g : Graph}

theorem Graph.matchStep_congr
    {part part' : TypeHandle → TypeHandle → Substitution → Except DeductionError Substitution}
    {p : TypeHandle} (h : ∀ x ∈ (g.type p).components, part x = part' x) (a : TypeHandle)
    (s : Substitution) : g.matchStep part p a s = g.matchStep part' p a s := by
  rw [matchStep, matchStep]
  generalize g.type p = f, g.type a = f' at h
  cases f with
  | function xs x =>
    cases f' with
    | function ys y =>
      have hfold : (xs.zip ys).foldlM (fun s e => part e.1 e.2 s) s =
          (xs.zip ys).foldlM (fun s e => part' e.1 e.2 s) s :=
        foldlM_congr s fun e he s => by
          rw [h e.1 (List.mem_append_left _ (List.of_mem_zip he).1)]
      simp only [h x (List.mem_append_right _ List.mem_cons_self), hfold]
    | _ => rfl
  | pointer x | reference x | sequence x | qualified x q =>
    cases f' <;> simp only [h x List.mem_cons_self]
  | _ => rfl

/-- Lists of computations are the same if their members are. -/
theorem mapM_congr {α β : Type} {f k : α → Build β} {as : List α} (h : ∀ a ∈ as, f a = k a) :
    as.mapM f = as.mapM k := by
  induction as with
  | nil => rfl
  | cons a as ih =>
    rw [List.mapM_cons, List.mapM_cons, h a List.mem_cons_self,
      ih fun x hx => h x (List.mem_cons_of_mem _ hx)]

theorem Build.substituteStep_congr {part part' : TypeHandle → Build TypeHandle} {t : TypeHandle}
    (h : ∀ x ∈ (g.type t).components, part x = part' x) (s : Substitution) :
    substituteStep part s t g = substituteStep part' s t g := by
  rw [substituteStep, substituteStep, Build.get_bind, Build.get_bind]
  split
  · rw [Build.get_bind, Build.get_bind]
    cases hf : g.type t with
    | function params ret =>
      rw [hf] at h
      simp only [mapM_congr fun x hx => h x (List.mem_append_left _ hx),
        h ret (List.mem_append_right _ List.mem_cons_self)]
    | qualified x quals | pointer x | reference x | sequence x =>
      rw [hf] at h
      simp only [h x List.mem_cons_self]
    | _ => rfl
  · rfl

end Congr

namespace Graph

variable {g : Graph}

/-! ## Walks end -/

theorem wellFounded_lt (c : Category) : WellFounded fun x y : Handle c => x < y :=
  (measure Handle.index).wf

/-- **Going from types to their components ends.** -/
theorem WellFormed.wellFounded_components (hg : g.WellFormed) :
    WellFounded fun s t => s ∈ (g.type t).components := by
  refine Subrelation.wf (fun {s t} hs => ?_) (wellFounded_lt .type)
  exact hg.component_lt (contains_of_type_ne fun hf => by rw [hf] at hs; cases hs) hs

/-- **Going from expressions to the expressions inside them ends.** -/
theorem WellFormed.wellFounded_operands (hg : g.WellFormed) :
    WellFounded fun x e => x ∈ (g.expr e).form.operands g := by
  refine Subrelation.wf (fun {x e} hx => ?_) (wellFounded_lt .expr)
  by_cases he : g.contains e = true
  · exact hg.operand_lt he hx
  · rw [Graph.expr, Array.getElem?_eq_none
      (Nat.le_of_not_lt fun hlt => he (contains_iff.2 hlt))] at hx
    cases hx

/-- **Going from constraints to their operands ends.** -/
theorem WellFormed.wellFounded_consOperands (hg : g.WellFormed) :
    WellFounded fun x c => x ∈ (g.cons c).operands := by
  refine Subrelation.wf (fun {x c} hx => ?_) (wellFounded_lt .cons)
  by_cases hc : g.contains c = true
  · exact (hg.placed c hc).2 x hx
  · rw [Graph.cons, Array.getElem?_eq_none
      (Nat.le_of_not_lt fun hlt => hc (contains_iff.2 hlt))] at hx
    cases hx

/-! ## Walks are their steps -/

theorem WellFormed.matchType_eq (hg : g.WellFormed) {p : TypeHandle} (hp : g.contains p = true)
    (a : TypeHandle) (s : Substitution) :
    g.matchType p a s = g.matchStep g.matchType p a s := by
  have hguarded : g.matchType p a s = g.matchStep (fun x y s => if x < p then g.matchType x y s
      else if x = y then .ok s else .error (.mismatch x y)) p a s := by
    rw [matchType, matchStep]
    simp only [List.contains_iff_mem]
    rfl
  rw [hguarded]
  refine matchStep_congr (fun x hx => ?_) a s
  funext y s
  exact if_pos (hg.component_lt hp hx)

theorem WellFormed.substitute_eq (hg : g.WellFormed) {t : TypeHandle} (ht : g.contains t = true)
    (s : Substitution) : Build.substitute s t g =
      Build.substituteStep (Build.substitute s) s t g := by
  have hguarded : Build.substitute s t = Build.substituteStep
      (fun x => if x < t then Build.substitute s x else pure x) s t := by
    rw [Build.substitute]
    rfl
  rw [hguarded]
  exact Build.substituteStep_congr (fun x hx => if_pos (hg.component_lt ht hx)) s

theorem WellFormed.normalize_eq (hg : g.WellFormed) {e : ExprHandle} (he : g.contains e = true) :
    Build.normalize e g = Build.normalizeStep Build.normalize e g := by
  have hlt := fun x hx => hg.operand_lt (x := x) he hx
  rw [Build.normalize, Build.normalizeStep, Build.get_bind, Build.get_bind]
  cases hf : (g.expr e).form with
  | binary op l r =>
    rw [hf] at hlt
    have hops := And.intro (hlt l List.mem_cons_self)
      (hlt r (List.mem_cons_of_mem _ List.mem_cons_self))
    cases op with
    | and | or => simp only [dif_pos hops]
    | _ => rfl
  | _ => rfl

theorem WellFormed.disjunctiveForm_eq (hg : g.WellFormed) {c : ConsHandle}
    (hc : g.contains c = true) : g.disjunctiveForm c = g.disjunctiveStep g.disjunctiveForm c := by
  rw [disjunctiveStep]
  cases hf : g.cons c with
  | conjunction l r => exact hg.disjunctiveForm_conjunction hc hf
  | disjunction l r => exact hg.disjunctiveForm_disjunction hc hf
  | _ => exact disjunctiveForm_atom (by rw [hf]; rfl)

theorem WellFormed.conjunctiveForm_eq (hg : g.WellFormed) {c : ConsHandle}
    (hc : g.contains c = true) : g.conjunctiveForm c = g.conjunctiveStep g.conjunctiveForm c := by
  rw [conjunctiveStep]
  cases hf : g.cons c with
  | conjunction l r => exact hg.conjunctiveForm_conjunction hc hf
  | disjunction l r => exact hg.conjunctiveForm_disjunction hc hf
  | _ => exact conjunctiveForm_atom (by rw [hf]; rfl)

theorem WellFormed.conjuncts_eq (hg : g.WellFormed) {c : ConsHandle} (hc : g.contains c = true) :
    g.conjuncts c = g.conjunctsStep g.conjuncts c := by
  rw [conjuncts, conjunctsStep]
  cases hf : g.cons c with
  | conjunction l r => exact dif_pos (hg.operands_lt hc (by rw [hf]; rfl))
  | _ => rfl

end Graph
end SemanticCore
