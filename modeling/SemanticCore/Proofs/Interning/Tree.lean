import SemanticCore.Proofs.Type.Tree

/-!
# The trees of names and constraints

Names and constraints are interned like types, and unfold to trees in the same way.  The symbol of
an identifier is unfolded to its spelling, and an argument that is a type to the tree of that type;
expressions and declarations are not interned, so their handles are leaves.

* `Graph.WellFormed.nameTree_injective` — names of one tree have one handle.
* `Graph.WellFormed.consTree_injective` — constraints of one tree have one handle.
-/

set_option autoImplicit false
namespace SemanticCore

/-! ## Arguments -/

/-- An argument of a template or a concept, unfolded. -/
inductive TermTree where
  | type (t : TypeTree)
  | expr (e : ExprHandle)
  | decl (d : DeclHandle)
deriving Inhabited

/-- The tree of an argument. -/
def Term.tree (g : Graph) : Term → TermTree
  | type t => .type (g.typeTree t)
  | expr e => .expr e
  | decl d => .decl d

variable {g g' : Graph}

theorem Term.tree_injective (hg : g.WellFormed) {a b : Term} (ha : a.Fits g) (hb : b.Fits g)
    (h : a.tree g = b.tree g) : a = b := by
  cases a with
  | type s =>
    cases b with
    | type t => rw [hg.typeTree_injective ha hb (TermTree.type.inj h)]
    | _ => cases h
  | _ => cases b <;> cases h; rfl

theorem Term.trees_injective (hg : g.WellFormed) {as bs : List Term} (ha : ∀ a ∈ as, a.Fits g)
    (hb : ∀ b ∈ bs, b.Fits g) (h : as.map (·.tree g) = bs.map (·.tree g)) : as = bs :=
  eq_of_map_eq_map h fun a hmem b hmem' => tree_injective hg (ha a hmem) (hb b hmem')

/-! ## Names -/

/-- A name, unfolded. -/
inductive NameTree where
  | simple (spelling : String)
  | placeholder (number : UInt32)
  | template (decl : DeclHandle) (args : List TermTree)
  | concept (decl : DeclHandle) (args : List TermTree)
  | qualified (scope : DeclHandle) (name : NameTree)
  | global
deriving Inhabited

/-- The spelling of a symbol of the graph. -/
def Graph.symbolSpelling (g : Graph) (s : Symbol) : String :=
  (SymbolTable.spelling? g.symbols s).getD ""

/-- The tree of a form, given the trees of the names inside it. -/
def NameForm.tree (g : Graph) (part : NameHandle → NameTree) : NameForm → NameTree
  | simple s => .simple (g.symbolSpelling s)
  | placeholder n => .placeholder n
  | template d args => .template d (args.map (·.tree g))
  | concept d args => .concept d (args.map (·.tree g))
  | qualified scope n => .qualified scope (part n)
  | global => .global

theorem symbolSpelling_get {s : Symbol} (hs : s.index < g.symbols.size) :
    g.symbols.nodes[s.index]? = some (g.symbolSpelling s) :=
  getElem?_eq_some_getD hs ""

/-- Symbols of one spelling are one symbol. -/
theorem symbolSpelling_injective {s t : Symbol} (hs : s.index < g.symbols.size)
    (ht : t.index < g.symbols.size) (h : g.symbolSpelling s = g.symbolSpelling t) : s = t := by
  have hi := Interned.index_unique (h ▸ symbolSpelling_get hs) (symbolSpelling_get ht)
  cases s
  cases t
  cases hi
  rfl

theorem NameForm.tree_congr {part part' : NameHandle → NameTree} {f : NameForm}
    (h : ∀ n ∈ f.parts, part n = part' n) : f.tree g part = f.tree g part' := by
  cases f with
  | qualified scope n => rw [tree, tree, h n List.mem_cons_self]
  | _ => rfl

/-- Forms of one tree are equal if the trees of the names inside them tell these apart. -/
theorem NameForm.tree_injective (hg : g.WellFormed) {part : NameHandle → NameTree}
    {f f' : NameForm} (hf : f.Fits g) (hf' : f'.Fits g) (h : f.tree g part = f'.tree g part)
    (hpart : ∀ m ∈ f.parts, ∀ n ∈ f'.parts, part m = part n → m = n) : f = f' := by
  cases f with
  | simple s =>
    cases f' with
    | simple t => rw [symbolSpelling_injective hf hf' (NameTree.simple.inj h)]
    | _ => cases h
  | template d args =>
    cases f' with
    | template d' args' =>
      obtain ⟨rfl, hargs⟩ := NameTree.template.inj h
      rw [Term.trees_injective hg hf.2 hf'.2 hargs]
    | _ => cases h
  | concept d args =>
    cases f' with
    | concept d' args' =>
      obtain ⟨rfl, hargs⟩ := NameTree.concept.inj h
      rw [Term.trees_injective hg hf.2 hf'.2 hargs]
    | _ => cases h
  | qualified scope n =>
    cases f' with
    | qualified scope' n' =>
      obtain ⟨rfl, hn⟩ := NameTree.qualified.inj h
      rw [hpart n List.mem_cons_self n' List.mem_cons_self hn]
    | _ => cases h
  | _ => cases f' <;> cases h; rfl

/-! ## Constraints -/

/-- A constraint, unfolded. -/
inductive ConsTree where
  | concept (decl : DeclHandle) (args : List TermTree)
  | predicate (e : ExprHandle)
  | conjunction (lhs rhs : ConsTree)
  | disjunction (lhs rhs : ConsTree)
deriving Inhabited

/-- The tree of a form, given the trees of its operands. -/
def ConsForm.tree (g : Graph) (part : ConsHandle → ConsTree) : ConsForm → ConsTree
  | concept d args => .concept d (args.map (·.tree g))
  | predicate e => .predicate e
  | conjunction lhs rhs => .conjunction (part lhs) (part rhs)
  | disjunction lhs rhs => .disjunction (part lhs) (part rhs)

theorem ConsForm.tree_congr {part part' : ConsHandle → ConsTree} {f : ConsForm}
    (h : ∀ c ∈ f.operands, part c = part' c) : f.tree g part = f.tree g part' := by
  cases f with
  | conjunction lhs rhs | disjunction lhs rhs =>
    rw [tree, tree, h lhs List.mem_cons_self, h rhs (List.mem_cons_of_mem _ List.mem_cons_self)]
  | _ => rfl

/-- Forms of one tree are equal if the trees of their operands tell these apart. -/
theorem ConsForm.tree_injective (hg : g.WellFormed) {part : ConsHandle → ConsTree}
    {f f' : ConsForm} (hf : f.Fits g) (hf' : f'.Fits g) (h : f.tree g part = f'.tree g part)
    (hpart : ∀ c ∈ f.operands, ∀ d ∈ f'.operands, part c = part d → c = d) : f = f' := by
  have hmem : ∀ {x y : ConsHandle}, y ∈ [x, y] := List.mem_cons_of_mem _ List.mem_cons_self
  cases f with
  | concept d args =>
    cases f' with
    | concept d' args' =>
      obtain ⟨rfl, hargs⟩ := ConsTree.concept.inj h
      rw [Term.trees_injective hg hf.2 hf'.2 hargs]
    | _ => cases h
  | predicate e => cases f' <;> cases h; rfl
  | conjunction lhs rhs =>
    cases f' with
    | conjunction lhs' rhs' =>
      obtain ⟨hl, hr⟩ := ConsTree.conjunction.inj h
      rw [hpart lhs List.mem_cons_self lhs' List.mem_cons_self hl, hpart rhs hmem rhs' hmem hr]
    | _ => cases h
  | disjunction lhs rhs =>
    cases f' with
    | disjunction lhs' rhs' =>
      obtain ⟨hl, hr⟩ := ConsTree.disjunction.inj h
      rw [hpart lhs List.mem_cons_self lhs' List.mem_cons_self hl, hpart rhs hmem rhs' hmem hr]
    | _ => cases h

namespace Graph

/-! ## From a handle to a tree -/

/-- The tree of a name.  A name inside it that does not come before it would count as the global
name. -/
def nameTree (g : Graph) (n : NameHandle) : NameTree :=
  (g.name n).tree g fun m => if _ : m < n then g.nameTree m else .global
termination_by n.index
decreasing_by assumption

/-- The tree of a constraint.  An operand that does not come before it would count as a predicate
over the first expression. -/
def consTree (g : Graph) (c : ConsHandle) : ConsTree :=
  (g.cons c).tree g fun x => if _ : x < c then g.consTree x else .predicate default
termination_by c.index
decreasing_by assumption

/-- The tree of a name is made of the trees of the names inside it. -/
theorem WellFormed.nameTree_eq (hg : g.WellFormed) {n : NameHandle} (hn : g.contains n = true) :
    g.nameTree n = (g.name n).tree g g.nameTree := by
  rw [Graph.nameTree]
  exact NameForm.tree_congr fun m hm => dif_pos ((hg.placed n hn).2 m hm)

/-- The tree of a constraint is made of the trees of its operands. -/
theorem WellFormed.consTree_eq (hg : g.WellFormed) {c : ConsHandle} (hc : g.contains c = true) :
    g.consTree c = (g.cons c).tree g g.consTree := by
  rw [Graph.consTree]
  exact ConsForm.tree_congr fun x hx => dif_pos ((hg.placed c hc).2 x hx)

theorem name_get (n : NameHandle) (hn : g.contains n = true) :
    g.names.nodes[n.index]? = some (g.name n) :=
  getElem?_eq_some_getD (contains_iff.1 hn) default

theorem cons_get (c : ConsHandle) (hc : g.contains c = true) :
    g.constraints.nodes[c.index]? = some (g.cons c) :=
  getElem?_eq_some_getD (contains_iff.1 hc) default

/-- Names of one form have one handle. -/
theorem name_injective {m n : NameHandle} (hm : g.contains m = true) (hn : g.contains n = true)
    (h : g.name m = g.name n) : m = n :=
  Handle.ext (Interned.index_unique (h ▸ name_get m hm) (name_get n hn))

/-- Constraints of one form have one handle. -/
theorem cons_injective {c d : ConsHandle} (hc : g.contains c = true) (hd : g.contains d = true)
    (h : g.cons c = g.cons d) : c = d :=
  Handle.ext (Interned.index_unique (h ▸ cons_get c hc) (cons_get d hd))

/-- **Names of one tree have one handle.** -/
theorem WellFormed.nameTree_injective (hg : g.WellFormed) {m n : NameHandle}
    (hm : g.contains m = true) (hn : g.contains n = true) (h : g.nameTree m = g.nameTree n) :
    m = n := by
  obtain ⟨i⟩ := m
  induction i using Nat.strongRecOn generalizing n with
  | ind i ih =>
    have hm' := hg.placed _ hm
    have hn' := hg.placed _ hn
    rw [hg.nameTree_eq hm, hg.nameTree_eq hn] at h
    refine name_injective hm hn (NameForm.tree_injective hg hm'.1 hn'.1 h fun x hx y hy hxy => ?_)
    exact ih x.index (hm'.2 x hx) (name_parts_fit hn'.1 y hy) (name_parts_fit hm'.1 x hx) hxy

/-- **Constraints of one tree have one handle.** -/
theorem WellFormed.consTree_injective (hg : g.WellFormed) {c d : ConsHandle}
    (hc : g.contains c = true) (hd : g.contains d = true) (h : g.consTree c = g.consTree d) :
    c = d := by
  obtain ⟨i⟩ := c
  induction i using Nat.strongRecOn generalizing d with
  | ind i ih =>
    have hc' := hg.placed _ hc
    have hd' := hg.placed _ hd
    rw [hg.consTree_eq hc, hg.consTree_eq hd] at h
    refine cons_injective hc hd (ConsForm.tree_injective hg hc'.1 hd'.1 h fun x hx y hy hxy => ?_)
    exact ih x.index (hc'.2 x hx) (cons_operands_fit hd'.1 y hy) (cons_operands_fit hc'.1 x hx) hxy

/-- A form that fits the graph and has the tree of a name of the graph is the form of that name. -/
theorem WellFormed.name_eq_of_tree (hg : g.WellFormed) {n : NameHandle} {f : NameForm}
    (hn : g.contains n = true) (hf : f.Fits g) (h : g.nameTree n = f.tree g g.nameTree) :
    g.name n = f := by
  have hn' := hg.placed n hn
  rw [hg.nameTree_eq hn] at h
  exact NameForm.tree_injective hg hn'.1 hf h fun x hx y hy hxy =>
    hg.nameTree_injective (name_parts_fit hn'.1 x hx) (name_parts_fit hf y hy) hxy

/-- A form that fits the graph and has the tree of a constraint of the graph is the form of that
constraint. -/
theorem WellFormed.cons_eq_of_tree (hg : g.WellFormed) {c : ConsHandle} {f : ConsForm}
    (hc : g.contains c = true) (hf : f.Fits g) (h : g.consTree c = f.tree g g.consTree) :
    g.cons c = f := by
  have hc' := hg.placed c hc
  rw [hg.consTree_eq hc] at h
  exact ConsForm.tree_injective hg hc'.1 hf h fun x hx y hy hxy =>
    hg.consTree_injective (cons_operands_fit hc'.1 x hx) (cons_operands_fit hf y hy) hxy

/-! ## Trees in an extension -/

theorem WellFormed.termTree_extend (hg : g.WellFormed) (h : g.Extends g') {a : Term}
    (ha : a.Fits g) : a.tree g' = a.tree g := by
  cases a with
  | type t => exact congrArg TermTree.type (hg.typeTree_extend h ha)
  | _ => rfl

theorem WellFormed.termTrees_extend (hg : g.WellFormed) (h : g.Extends g') {as : List Term}
    (ha : ∀ a ∈ as, a.Fits g) : as.map (·.tree g') = as.map (·.tree g) :=
  List.map_congr_left fun a hmem => hg.termTree_extend h (ha a hmem)

theorem Extends.symbolSpelling (h : g.Extends g') {s : Symbol} (hs : s.index < g.symbols.size) :
    g'.symbolSpelling s = g.symbolSpelling s :=
  h.symbols.getD_eq hs ""

theorem WellFormed.nameFormTree_extend (hg : g.WellFormed) (h : g.Extends g')
    (part : NameHandle → NameTree) {f : NameForm} (hf : f.Fits g) :
    f.tree g' part = f.tree g part := by
  cases f with
  | simple s => exact congrArg NameTree.simple (h.symbolSpelling hf)
  | template d args => exact congrArg (NameTree.template d) (hg.termTrees_extend h hf.2)
  | concept d args => exact congrArg (NameTree.concept d) (hg.termTrees_extend h hf.2)
  | _ => rfl

theorem WellFormed.consFormTree_extend (hg : g.WellFormed) (h : g.Extends g')
    (part : ConsHandle → ConsTree) {f : ConsForm} (hf : f.Fits g) :
    f.tree g' part = f.tree g part := by
  cases f with
  | concept d args => exact congrArg (ConsTree.concept d) (hg.termTrees_extend h hf.2)
  | _ => rfl

/-- **The tree of a name stays as it is when the graph is extended.** -/
theorem WellFormed.nameTree_extend (hg : g.WellFormed) (h : g.Extends g') {n : NameHandle}
    (hn : g.contains n = true) : g'.nameTree n = g.nameTree n := by
  obtain ⟨i⟩ := n
  induction i using Nat.strongRecOn with
  | ind i ih =>
    have hn' := hg.placed _ hn
    rw [hg.nameTree_eq hn, Graph.nameTree, h.name hn, hg.nameFormTree_extend h _ hn'.1]
    refine NameForm.tree_congr fun m hm => ?_
    rw [dif_pos (hn'.2 m hm)]
    exact ih m.index (hn'.2 m hm) (name_parts_fit hn'.1 m hm)

/-- **The tree of a constraint stays as it is when the graph is extended.** -/
theorem WellFormed.consTree_extend (hg : g.WellFormed) (h : g.Extends g') {c : ConsHandle}
    (hc : g.contains c = true) : g'.consTree c = g.consTree c := by
  obtain ⟨i⟩ := c
  induction i using Nat.strongRecOn with
  | ind i ih =>
    have hc' := hg.placed _ hc
    rw [hg.consTree_eq hc, Graph.consTree, h.cons hc, hg.consFormTree_extend h _ hc'.1]
    refine ConsForm.tree_congr fun x hx => ?_
    rw [dif_pos (hc'.2 x hx)]
    exact ih x.index (hc'.2 x hx) (cons_operands_fit hc'.1 x hx)

end Graph
end SemanticCore
