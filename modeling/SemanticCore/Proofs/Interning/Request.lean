import SemanticCore.Proofs.Graph.Settling
import SemanticCore.Proofs.Interning.Tree

/-!
# Asking for structures

The constructors of names, types and constraints are asked for a structure: the tree that the
caller has in mind.  `Graph.NameRequest`, `Graph.TypeRequest` and `Graph.ConsRequest` list the
constructors that find their structure again, each with the tree that it asks for, and
`Graph.Answers` says what all of them do: they return the handle of that tree, and *if there is one
already, they return that one and leave the graph as it is*.

The remaining constructors, `auto`, `decltype(auto)` and the placeholder names, are asked for
something that does not exist yet.  What they return is new (`Graph.Fresh`) if the number that they
draw is.

* `Graph.WellFormed.answers_typeRequest`, `answers_nameRequest`, `answers_consRequest` — every
  request is answered.
* `Graph.fresh_type`, `Graph.fresh_name` — a form that is not in the graph gets a new handle.
-/

set_option autoImplicit false
namespace SemanticCore

/-- Add qualifiers to a tree, in the normal form of qualified types. -/
def TypeTree.qualify (quals : Qualifiers) : TypeTree → TypeTree
  | reference target => .reference target
  | qualified base own => .qualified base (own.union quals)
  | t => if quals.isNone then t else .qualified t quals

namespace Graph

/-- The tree of two joined constraints, in normal form. -/
def joinTree (g : Graph) (join : ConsTree → ConsTree → ConsTree) (lhs rhs : ConsHandle) :
    ConsTree :=
  if lhs = rhs then g.consTree lhs
  else if lhs ≤ rhs then join (g.consTree lhs) (g.consTree rhs)
  else join (g.consTree rhs) (g.consTree lhs)

/-! ## Requests -/

/-- The constructors of names, and the trees that they ask for. -/
inductive NameRequest (g : Graph) : Attempt BuildError NameHandle → NameTree → Prop
  | identifier (s : String) : NameRequest g (liftM (Build.identifier s)) (.simple s)
  | template {d : DeclHandle} {args : List Term} (hd : g.isTemplateDecl d = true)
      (ha : ∀ a ∈ args, a.Fits g) :
      NameRequest g (Build.templateName d args) (.template d (args.map (·.tree g)))
  | concept {d : DeclHandle} {args : List Term} (hd : g.isConceptDecl d = true)
      (ha : ∀ a ∈ args, a.Fits g) :
      NameRequest g (Build.conceptName d args) (.concept d (args.map (·.tree g)))
  | qualified {scope : DeclHandle} {n : NameHandle} (hs : g.contains scope = true)
      (hn : g.contains n = true) :
      NameRequest g (liftM (Build.qualifiedName scope n)) (.qualified scope (g.nameTree n))

/-- The constructors of types, and the trees that they ask for. -/
inductive TypeRequest (g : Graph) : Attempt BuildError TypeHandle → TypeTree → Prop
  | int (signed : Bool) (precision : UInt16) :
      TypeRequest g (liftM (Build.intTypeOf signed precision)) (.int signed precision)
  | intType : TypeRequest g (liftM Build.intType) (.int true g.intPrecision)
  | uintType : TypeRequest g (liftM Build.uintType) (.int false g.intPrecision)
  | functionOf {params : List TypeHandle} {ret : TypeHandle}
      (hp : ∀ p ∈ params, g.contains p = true) (hr : g.contains ret = true) :
      TypeRequest g (liftM (Build.functionTypeOf params ret))
        (.function (params.map g.typeTree) (g.typeTree ret))
  | function {params : List DeclHandle} {types : List TypeHandle} {ret : TypeHandle}
      (hp : params.map g.objectParamType? = types.map some)
      (ht : ∀ t ∈ types, g.contains t = true) (hr : g.contains ret = true) :
      TypeRequest g (Build.functionType params ret)
        (.function (types.map g.typeTree) (g.typeTree ret))
  | qualified {t : TypeHandle} (quals : Qualifiers) (ht : g.contains t = true) :
      TypeRequest g (liftM (Build.qualifiedType t quals)) ((g.typeTree t).qualify quals)
  | pointer {t : TypeHandle} (ht : g.contains t = true) :
      TypeRequest g (liftM (Build.pointerType t)) (.pointer (g.typeTree t))
  | reference {t : TypeHandle} (ht : g.contains t = true) :
      TypeRequest g (liftM (Build.referenceType t)) (.reference (g.typeTree t))
  | sequence {t : TypeHandle} (ht : g.contains t = true) :
      TypeRequest g (liftM (Build.sequenceType t)) (.sequence (g.typeTree t))
  | ofClass {d : DeclHandle} (hd : g.isClassDecl d = true) :
      TypeRequest g (Build.classType d) (.ofClass d)
  | typename {d : DeclHandle} (hd : g.isTypeParamDecl d = true) :
      TypeRequest g (Build.typenameType d) (.typename d)
  | archetype {d : DeclHandle} (hd : g.contains d = true) :
      TypeRequest g (liftM (Build.archetypeType d)) (.archetype d)

/-- The constructors of constraints, and the trees that they ask for. -/
inductive ConsRequest (g : Graph) : Attempt BuildError ConsHandle → ConsTree → Prop
  | concept {d : DeclHandle} {args : List Term} (hd : g.isConceptDecl d = true)
      (ha : ∀ a ∈ args, a.Fits g) :
      ConsRequest g (Build.conceptConstraint d args) (.concept d (args.map (·.tree g)))
  | predicate {e : ExprHandle} (he : g.contains e = true) :
      ConsRequest g (liftM (Build.predicate e)) (.predicate e)
  | conjunction {lhs rhs : ConsHandle} (hl : g.contains lhs = true) (hr : g.contains rhs = true) :
      ConsRequest g (liftM (Build.conjunction lhs rhs)) (g.joinTree .conjunction lhs rhs)
  | disjunction {lhs rhs : ConsHandle} (hl : g.contains lhs = true) (hr : g.contains rhs = true) :
      ConsRequest g (liftM (Build.disjunction lhs rhs)) (g.joinTree .disjunction lhs rhs)

/-! ## Answers -/

/-- The request returns a handle of the tree that it asks for.  If there is such a handle already,
it returns that one and leaves the graph as it is. -/
def Answers {c : Category} {τ : Type} (g : Graph) (x : Attempt BuildError (Handle c))
    (tree : Graph → Handle c → τ) (want : τ) : Prop :=
  (∃ h g', x g = (.ok h, g') ∧ g'.contains h = true ∧ tree g' h = want) ∧
    ∀ h, g.contains h = true → tree g h = want → x g = (.ok h, g)

/-- The computation returns a node that was not there before. -/
def Fresh {c : Category} (g : Graph) (x : Build (Handle c)) : Prop :=
  g.contains (x g).1 = false ∧ Graph.contains (x g).2 (x g).1 = true

variable {g : Graph}

theorem Answers.congr {c : Category} {τ : Type} {x y : Attempt BuildError (Handle c)}
    {tree : Graph → Handle c → τ} {want : τ} (h : x g = y g) (hy : g.Answers y tree want) :
    g.Answers x tree want := by
  rwa [Answers, h]

theorem Answers.of_build {c : Category} {τ : Type} {x y : Build (Handle c)}
    {tree : Graph → Handle c → τ} {want : τ} (h : x g = y g)
    (hy : g.Answers (liftM y) tree want) : g.Answers (liftM x) tree want :=
  .congr (y := liftM y) (Attempt.lift_of_eq h) hy

/-- A request for a structure that is known to exist. -/
theorem answers_pure {c : Category} {τ : Type} {tree : Graph → Handle c → τ} {h : Handle c}
    (hh : g.contains h = true)
    (hinj : ∀ x, g.contains x = true → tree g x = tree g h → x = h) :
    g.Answers (liftM (pure h : Build (Handle c))) tree (tree g h) :=
  ⟨⟨h, g, rfl, hh, rfl⟩, fun x hx hxh => by rw [hinj x hx hxh]; rfl⟩

theorem WellFormed.answers_name (hg : g.WellFormed) {f : NameForm} (hf : f.Fits g) :
    g.Answers (liftM (Build.name f)) Graph.nameTree (f.tree g g.nameTree) := by
  obtain ⟨hgrow, hc, hn⟩ := Build.Yields.name hf
  refine ⟨⟨(Build.name f g).1, (Build.name f g).2, rfl, hc, ?_⟩, fun n hn hwant => ?_⟩
  · rw [(hgrow.wellFormed hg).nameTree_eq hc, hn, hg.nameFormTree_extend hgrow.extends _ hf]
    exact NameForm.tree_congr fun m hm =>
      hg.nameTree_extend hgrow.extends (name_parts_fit hf m hm)
  · have hget := hg.name_eq_of_tree hn hf hwant ▸ name_get n hn
    have hrun : Build.name f g = (n, g) := by
      change ((⟨(g.names.intern f).1⟩, { g with names := (g.names.intern f).2 }) :
        NameHandle × Graph) = _
      rw [Interned.intern_of_getElem? hget]
    exact Attempt.lift_of_eq hrun

/-- Asking for the form of a constraint of the graph gives this constraint and adds nothing. -/
theorem constraint_again {c : ConsHandle} {f : ConsForm} (hc : g.contains c = true)
    (hf : g.cons c = f) : Build.constraint f g = (c, g) := by
  have hget := hf ▸ cons_get c hc
  change ((⟨(g.constraints.intern f).1⟩, { g with constraints := (g.constraints.intern f).2 }) :
    ConsHandle × Graph) = _
  rw [Interned.intern_of_getElem? hget]

theorem WellFormed.answers_constraint (hg : g.WellFormed) {f : ConsForm} (hf : f.Fits g) :
    g.Answers (liftM (Build.constraint f)) Graph.consTree (f.tree g g.consTree) := by
  obtain ⟨hgrow, hc, hn⟩ := Build.Yields.constraint hf
  refine ⟨⟨(Build.constraint f g).1, (Build.constraint f g).2, rfl, hc, ?_⟩, fun k hk hwant => ?_⟩
  · rw [(hgrow.wellFormed hg).consTree_eq hc, hn, hg.consFormTree_extend hgrow.extends _ hf]
    exact ConsForm.tree_congr fun x hx =>
      hg.consTree_extend hgrow.extends (cons_operands_fit hf x hx)
  · exact Attempt.lift_of_eq (constraint_again hk (hg.cons_eq_of_tree hk hf hwant))

/-- Asking for the form of a type of the graph gives this type and adds nothing. -/
theorem type_again {t : TypeHandle} {f : TypeForm} (ht : g.contains t = true) (hf : g.type t = f) :
    Build.type f g = (t, g) :=
  Build.type_of_getElem? (hf ▸ type_get t ht)

theorem WellFormed.answers_type (hg : g.WellFormed) {f : TypeForm} (hf : f.Fits g) :
    g.Answers (liftM (Build.type f)) Graph.typeTree (f.tree g.typeTree) := by
  obtain ⟨hgrow, hc, hn⟩ := Build.Yields.type hf
  refine ⟨⟨(Build.type f g).1, (Build.type f g).2, rfl, hc, ?_⟩, fun t ht hwant => ?_⟩
  · rw [(hgrow.wellFormed hg).typeTree_eq hc, hn]
    exact TypeForm.tree_congr fun s hs =>
      hg.typeTree_extend hgrow.extends (fits_components hf s hs)
  · exact Attempt.lift_of_eq (type_again ht (hg.type_eq_of_tree ht hf hwant))

/-- Computations that give types of one tree give one type, whatever became of the graph in
between. -/
theorem WellFormed.same_type (hg : g.WellFormed) {g' : Graph} {x y : Build TypeHandle}
    {tree : TypeTree}
    (hx : Build.Yields g x fun u g' => g'.contains u = true ∧ g'.typeTree u = tree)
    (hgrow : (x g).2.Grows g')
    (hy : Build.Yields g' y fun u g'' => g''.contains u = true ∧ g''.typeTree u = tree) :
    (y g').1 = (x g).1 := by
  have hg₁ := hx.1.wellFormed hg
  have hgrow' := hgrow.trans hy.1
  refine (hgrow'.wellFormed hg₁).typeTree_injective hy.2.1 (hgrow'.contains hx.2.1) ?_
  rw [hy.2.2, hg₁.typeTree_extend hgrow'.extends hx.2.1, hx.2.2]

/-! ## Every constructor answers its request -/

/-- Asking for the symbol of a spelling that has one. -/
theorem symbol_of_getElem? {s : String} {symbol : Symbol}
    (h : g.symbols.nodes[symbol.index]? = some s) : Build.symbol s g = (symbol, g) := by
  have hrun := Interned.intern_of_getElem? h
  change (((SymbolTable.intern g.symbols s).1,
    { g with symbols := (SymbolTable.intern g.symbols s).2 }) : Symbol × Graph) = _
  rw [SymbolTable.intern, hrun]

theorem WellFormed.answers_identifier (hg : g.WellFormed) (s : String) :
    g.Answers (liftM (Build.identifier s)) Graph.nameTree (.simple s) := by
  obtain ⟨hgrow, hs⟩ := Build.Yields.symbol (g := g) s
  have hspell : Graph.symbolSpelling (Build.symbol s g).2 (Build.symbol s g).1 = s :=
    congrArg (Option.getD · "") (g.symbols.getElem?_intern s)
  have hnew := ((hgrow.wellFormed hg).answers_name (f := .simple _) hs).1
  rw [NameForm.tree, hspell] at hnew
  refine ⟨hnew, fun n hn hwant => ?_⟩
  -- if the name is there already then so is its symbol, and the symbol table stays as it is
  have hn' := (hg.placed n hn).1
  have htree := hg.nameTree_eq hn ▸ hwant
  cases hform : g.name n with
  | simple symbol =>
    rw [hform] at hn' htree
    have hget := symbolSpelling_get hn'
    rw [NameTree.simple.inj htree] at hget
    have hrun : Build.identifier s g = Build.name (.simple symbol) g := by
      change Build.name (.simple (Build.symbol s g).1) (Build.symbol s g).2 = _
      rw [symbol_of_getElem? hget]
    exact (Answers.of_build hrun (hg.answers_name hn')).2 n hn (by rw [htree]; exact hwant)
  | _ => rw [hform] at htree; cases htree

theorem WellFormed.answers_join (hg : g.WellFormed) {f : ConsHandle → ConsHandle → ConsForm}
    {join : ConsTree → ConsTree → ConsTree}
    (htree : ∀ l r, (f l r).tree g g.consTree = join (g.consTree l) (g.consTree r))
    (hfits : ∀ l r, g.contains l = true → g.contains r = true → l < r → (f l r).Fits g)
    {lhs rhs : ConsHandle} (hl : g.contains lhs = true) (hr : g.contains rhs = true) :
    g.Answers (liftM (if lhs = rhs then pure lhs
      else if lhs ≤ rhs then Build.constraint (f lhs rhs)
      else Build.constraint (f rhs lhs))) Graph.consTree (g.joinTree join lhs rhs) := by
  rw [joinTree]
  by_cases heq : lhs = rhs
  · rw [if_pos heq, if_pos heq]
    exact answers_pure hl fun c hc h => hg.consTree_injective hc hl h
  · have hne : lhs.index ≠ rhs.index := fun h => heq (Handle.ext h)
    rw [if_neg heq, if_neg heq]
    by_cases hle : lhs ≤ rhs
    · rw [if_pos hle, if_pos hle, ← htree]
      exact hg.answers_constraint (hfits lhs rhs hl hr (Nat.lt_of_le_of_ne hle hne))
    · rw [if_neg hle, if_neg hle, ← htree]
      exact hg.answers_constraint (hfits rhs lhs hr hl (Nat.lt_of_not_le hle))

theorem WellFormed.answers_nameRequest (hg : g.WellFormed) {x : Attempt BuildError NameHandle}
    {want : NameTree} (h : g.NameRequest x want) : g.Answers x Graph.nameTree want := by
  cases h with
  | identifier s => exact hg.answers_identifier s
  | @template d args hd ha =>
    refine .congr ?_ (hg.answers_name (f := .template d args) ⟨hd, ha⟩)
    rw [Build.templateName, Attempt.get_bind, if_pos hd]
  | @concept d args hd ha =>
    refine .congr ?_ (hg.answers_name (f := .concept d args) ⟨hd, ha⟩)
    rw [Build.conceptName, Attempt.get_bind, if_pos hd]
  | qualified hs hn => exact hg.answers_name ⟨hs, hn⟩

theorem WellFormed.answers_consRequest (hg : g.WellFormed) {x : Attempt BuildError ConsHandle}
    {want : ConsTree} (h : g.ConsRequest x want) : g.Answers x Graph.consTree want := by
  cases h with
  | @concept d args hd ha =>
    refine .congr ?_ (hg.answers_constraint (f := .concept d args) ⟨hd, ha⟩)
    rw [Build.conceptConstraint, Attempt.get_bind, if_pos hd]
  | predicate he => exact hg.answers_constraint (f := .predicate _) he
  | conjunction hl hr =>
    exact hg.answers_join (f := .conjunction) (fun _ _ => rfl)
      (fun _ _ hl hr hlt => ⟨hl, hr, hlt⟩) hl hr
  | disjunction hl hr =>
    exact hg.answers_join (f := .disjunction) (fun _ _ => rfl)
      (fun _ _ hl hr hlt => ⟨hl, hr, hlt⟩) hl hr

/-! ### Types -/

end Graph

theorem TypeTree.qualify_plain {f : TypeForm} {part : TypeHandle → TypeTree} (quals : Qualifiers)
    (hr : f.isReference = false) (hq : f.isQualified = false) :
    (f.tree part).qualify quals =
      if quals.isNone then f.tree part else .qualified (f.tree part) quals := by
  cases f with
  | reference t => cases hr
  | qualified base own => cases hq
  | _ => rfl

namespace Graph

variable {g : Graph}

theorem WellFormed.answers_qualified (hg : g.WellFormed) {t : TypeHandle} (quals : Qualifiers)
    (ht : g.contains t = true) :
    g.Answers (liftM (Build.qualifiedType t quals)) Graph.typeTree
      ((g.typeTree t).qualify quals) := by
  have hsame : g.Answers (liftM (pure t : Build TypeHandle)) Graph.typeTree (g.typeTree t) :=
    answers_pure ht fun s hs h => hg.typeTree_injective hs ht h
  have htree := hg.typeTree_eq ht
  have hfits := (hg.placed t ht).1
  cases hr : (g.type t).isReference with
  | true =>
    cases hf : g.type t with
    | reference target =>
      have hq : (g.typeTree t).qualify quals = g.typeTree t := by rw [htree, hf]; rfl
      rw [hq]
      exact .of_build (qualifiedType_reference quals hf) hsame
    | _ => rw [hf] at hr; cases hr
  | false =>
    cases hq : (g.type t).isQualified with
    | true =>
      cases hf : g.type t with
      | qualified base own =>
        rw [hf] at hfits
        refine .of_build (qualifiedType_qualified quals hf) ?_
        by_cases hcov : own.covers quals = true
        · have hunion : own.union quals = own := Qualifiers.covers_iff_union_eq.1 hcov
          have hqual : (g.typeTree t).qualify quals = g.typeTree t := by
            rw [htree, hf, TypeForm.tree, TypeTree.qualify, hunion]
          rw [if_pos hcov, hqual]
          exact hsame
        · rw [if_neg hcov, htree, hf]
          exact hg.answers_type (f := .qualified base (own.union quals))
            ⟨hfits.1, hfits.2.1, hfits.2.2.1, Qualifiers.isNone_union hfits.2.2.2⟩
      | _ => rw [hf] at hq; cases hq
    | false =>
      refine .of_build (qualifiedType_plain quals hr hq) ?_
      rw [htree, TypeTree.qualify_plain quals hr hq, ← htree]
      by_cases hn : quals.isNone = true
      · rw [if_pos hn, if_pos hn]
        exact hsame
      · rw [if_neg hn, if_neg hn]
        exact hg.answers_type (f := .qualified t quals) ⟨ht, hr, hq, eq_false_of_ne_true hn⟩

theorem WellFormed.answers_typeRequest (hg : g.WellFormed) {x : Attempt BuildError TypeHandle}
    {want : TypeTree} (h : g.TypeRequest x want) : g.Answers x Graph.typeTree want := by
  cases h with
  | int signed precision => exact hg.answers_type (f := .int signed precision) trivial
  | intType => exact hg.answers_type (f := .int true g.intPrecision) trivial
  | uintType => exact hg.answers_type (f := .int false g.intPrecision) trivial
  | functionOf hp hr => exact hg.answers_type (f := .function _ _) ⟨hp, hr⟩
  | @function params types ret hp ht hr =>
    refine .congr ?_ (hg.answers_type (f := .function types ret) ⟨ht, hr⟩)
    rw [Build.functionType, Attempt.bind_of_ok (objectParamTypes_eq hp)]
    rfl
  | qualified quals ht => exact hg.answers_qualified quals ht
  | pointer ht => exact hg.answers_type (f := .pointer _) ht
  | reference ht => exact hg.answers_type (f := .reference _) ht
  | sequence ht => exact hg.answers_type (f := .sequence _) ht
  | @ofClass d hd =>
    refine .congr ?_ (hg.answers_type (f := .ofClass d) hd)
    rw [Build.classType, Attempt.get_bind, if_pos hd]
  | @typename d hd =>
    refine .congr ?_ (hg.answers_type (f := .typename d) hd)
    rw [Build.typenameType, Attempt.get_bind, if_pos hd]
  | archetype hd => exact hg.answers_type (f := .archetype _) hd

/-! ## Constructors that return something new -/

theorem not_contains_of_index_eq {c : Category} {h : Handle c} (hi : h.index = g.count c) :
    g.contains h = false := by
  simp [contains, hi]

/-- A type that is not in the graph gets a new handle, also after a number was handed out. -/
theorem fresh_type {f : TypeForm} (hf : ∀ i : Nat, g.types.nodes[i]? ≠ some f)
    {x : Build TypeHandle} (hx : x g = Build.type f (Build.fresh g).2) : g.Fresh x := by
  rw [Fresh, hx]
  refine ⟨?_, (Build.type_returned f _).1⟩
  rcases Build.type_cases f (Build.fresh g).2 with ⟨t, ht, -⟩ | ⟨-, types, -, hrun⟩
  · exact absurd ht (hf _)
  · rw [hrun]
    exact not_contains_of_index_eq rfl

/-- A name that is not in the graph gets a new handle, also after a number was handed out. -/
theorem fresh_name {f : NameForm} (hf : ∀ i : Nat, g.names.nodes[i]? ≠ some f)
    {x : Build NameHandle} (hx : x g = Build.name f (Build.fresh g).2) : g.Fresh x := by
  rw [Fresh, hx]
  refine ⟨?_, (Build.name_returned f _).1⟩
  rcases g.names.intern_cases f with ⟨i, hi, -⟩ | ⟨-, hrun, -⟩
  · exact absurd hi (hf i)
  · exact not_contains_of_index_eq hrun

end Graph
end SemanticCore
