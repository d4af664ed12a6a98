import SemanticCore.Proofs.Context.Extension

/-!
# Scopes as a stack of tables

The textbook picture of nested scopes: each scope has a table of its own, a name is looked up from
the innermost table outwards, and closing a scope throws its table away.  `ScopeTables` is this
picture.  A context keeps one list of bindings instead and records where each scope begins in it;
`Context.withTables` says which list and which beginnings stand for given tables.

* `Context.lookup?_withTables`, `Context.lookupLocal?_withTables` — the list is searched as the
  tables are, and the part that belongs to the innermost scope is always there.
* `Context.bind_withTables`, `pushScope_withTables`, `popScope_withTables` and
  `Context.restore_withTables` — whatever changes the list changes the tables accordingly.
-/

set_option autoImplicit false
namespace SemanticCore

/-- What is bound in one scope, the latest first. -/
abbrev Table := List (NameHandle × DeclHandle)

/-- A scope other than the global one, with its table. -/
structure ScopeTable where
  owner : DeclHandle
  table : Table

/-- The open scopes, each with a table of its own.  The global scope is always there. -/
structure ScopeTables where
  /-- The open scopes but the global one, the innermost first. -/
  inner : List ScopeTable
  global : Table

namespace ScopeTables

/-- Nothing is bound, and only the global scope is open. -/
def empty : ScopeTables := ⟨[], []⟩

variable (T : ScopeTables)

/-- The table of the innermost scope. -/
def current : Table :=
  match T.inner with
  | [] => T.global
  | t :: _ => t.table

/-- The declaration that the innermost scope belongs to. -/
def owner : DeclHandle :=
  match T.inner with
  | [] => .globalNamespace
  | t :: _ => t.owner

/-- The number of open scopes. -/
def depth : Nat :=
  T.inner.length + 1

/-- Another table in place of the innermost one. -/
def withCurrent (table : Table) : ScopeTables :=
  match T.inner with
  | [] => { T with global := table }
  | t :: outer => { T with inner := { t with table } :: outer }

/-! ## Operations -/

/-- The binding of a name in the innermost scope that binds it, the latest one there. -/
def lookup? (n : NameHandle) : Option DeclHandle :=
  (T.inner.findSome? fun t => t.table.lookup n).or (T.global.lookup n)

/-- The latest binding of a name in the innermost scope. -/
def lookupLocal? (n : NameHandle) : Option DeclHandle :=
  T.current.lookup n

/-- Bind a name in the innermost scope. -/
def bind (n : NameHandle) (d : DeclHandle) : ScopeTables :=
  T.withCurrent ((n, d) :: T.current)

/-- Open a scope with an empty table. -/
def push (owner : DeclHandle) : ScopeTables :=
  { T with inner := ⟨owner, []⟩ :: T.inner }

/-- Close the innermost scope.  The global scope stays open. -/
def pop : ScopeTables :=
  { T with inner := T.inner.tail }

/-- Keep the oldest `k` bindings of the innermost scope. -/
def cut (k : Nat) : ScopeTables :=
  T.withCurrent (Context.oldest k T.current)

/-! ## One list of bindings -/

/-- The bindings of all scopes in one list, the latest first. -/
def bindings : List (NameHandle × DeclHandle) :=
  T.inner.flatMap (·.table) ++ T.global

/-- The bindings of the scopes around the innermost one. -/
def beneath : List (NameHandle × DeclHandle) :=
  match T.inner with
  | [] => []
  | _ :: outer => outer.flatMap (·.table) ++ T.global

/-- Where the tables of the scopes begin in the list. -/
def starts (global : Table) : List ScopeTable → List Scope
  | [] => []
  | t :: outer => ⟨t.owner, (outer.flatMap (·.table) ++ global).length⟩ :: starts global outer

/-- The scopes as a context records them. -/
def scopes : List Scope :=
  starts T.global T.inner

variable {T}

theorem bindings_eq : T.bindings = T.current ++ T.beneath := by
  rw [bindings, current, beneath]
  cases T.inner with
  | nil => rw [List.append_nil]; rfl
  | cons t outer => rw [List.flatMap_cons, List.append_assoc]

@[simp] theorem length_scopes : T.scopes.length = T.inner.length := by
  rw [scopes]
  induction T.inner with
  | nil => rfl
  | cons t outer ih => rw [starts, List.length_cons, List.length_cons, ih]

/-! ## What another innermost table does not change -/

@[simp] theorem withCurrent_current : T.withCurrent T.current = T := by
  obtain ⟨inner, global⟩ := T
  cases inner <;> rfl

@[simp] theorem current_withCurrent (a : Table) : (T.withCurrent a).current = a := by
  obtain ⟨inner, global⟩ := T
  cases inner <;> rfl

@[simp] theorem withCurrent_withCurrent (a b : Table) :
    (T.withCurrent a).withCurrent b = T.withCurrent b := by
  obtain ⟨inner, global⟩ := T
  cases inner <;> rfl

@[simp] theorem depth_withCurrent (a : Table) : (T.withCurrent a).depth = T.depth := by
  obtain ⟨inner, global⟩ := T
  cases inner <;> rfl

@[simp] theorem beneath_withCurrent (a : Table) : (T.withCurrent a).beneath = T.beneath := by
  obtain ⟨inner, global⟩ := T
  cases inner <;> rfl

@[simp] theorem scopes_withCurrent (a : Table) : (T.withCurrent a).scopes = T.scopes := by
  obtain ⟨inner, global⟩ := T
  cases inner <;> rfl

/-! ## The operations on the list -/

theorem bindings_withCurrent (a : Table) : (T.withCurrent a).bindings = a ++ T.beneath := by
  rw [bindings_eq, current_withCurrent, beneath_withCurrent]

theorem bindings_bind (n : NameHandle) (d : DeclHandle) :
    (T.bind n d).bindings = (n, d) :: T.bindings := by
  rw [bind, bindings_withCurrent, bindings_eq, List.cons_append]

/-- What is kept of the list is what lies beneath, and as much of the innermost table as is left of
the number. -/
theorem oldest_bindings (k : Nat) :
    Context.oldest (T.beneath.length + k) T.bindings = (T.cut k).bindings := by
  have hcount : T.current.length + T.beneath.length - (T.beneath.length + k) =
      T.current.length - k := by omega
  rw [cut, bindings_withCurrent, bindings_eq, Context.oldest, Context.oldest, List.length_append,
    hcount, List.drop_append_of_le_length (Nat.sub_le _ _)]

/-- **The list is searched as the tables are**, from the innermost outwards. -/
theorem lookup_bindings (n : NameHandle) : T.bindings.lookup n = T.lookup? n := by
  have hinner : ∀ inner : List ScopeTable,
      (inner.flatMap (·.table)).lookup n = inner.findSome? fun t => t.table.lookup n := by
    intro inner
    induction inner with
    | nil => rfl
    | cons t outer ih =>
      rw [List.flatMap_cons, List.lookup_append, ih, List.findSome?_cons]
      cases t.table.lookup n <;> rfl
  rw [bindings, List.lookup_append, hinner, lookup?]

end ScopeTables

/-! ## Contexts with tables -/

namespace Context

/-- The context with the scopes and bindings of the tables. -/
def withTables (c : Context) (T : ScopeTables) : Context :=
  { c with scopes := T.scopes, bindings := T.bindings }

variable {c : Context} {T : ScopeTables}

theorem lookup?_withTables (n : NameHandle) : (c.withTables T).lookup? n = T.lookup? n :=
  T.lookup_bindings n

theorem innermost_withTables : (c.withTables T).innermost = ⟨T.owner, T.beneath.length⟩ := by
  obtain ⟨inner, global⟩ := T
  cases inner <;> rfl

theorem currentScope_withTables : (c.withTables T).currentScope = T.owner := by
  rw [currentScope, innermost_withTables]

theorem depth_withTables : (c.withTables T).depth = T.depth :=
  congrArg (· + 1) T.length_scopes

/-- **The part of the list that belongs to the innermost scope is always there**, and is its
table. -/
theorem lookupLocal?_withTables (n : NameHandle) :
    (c.withTables T).lookupLocal? n = .ok (T.lookupLocal? n) := by
  have hlist : (c.withTables T).bindings = T.current ++ T.beneath := T.bindings_eq
  rw [lookupLocal?, innermost_withTables, hlist, List.length_append, Nat.add_sub_cancel,
    List.take_left, if_pos (Nat.le_add_left _ _), ScopeTables.lookupLocal?]

theorem bind_withTables (n : NameHandle) (d : DeclHandle) :
    (c.withTables T).bind n d = c.withTables (T.bind n d) := by
  rw [bind, withTables, withTables, T.bindings_bind, ScopeTables.bind,
    ScopeTables.scopes_withCurrent]

theorem pushScope_withTables (owner : DeclHandle) :
    (c.withTables T).pushScope owner = c.withTables (T.push owner) :=
  rfl

theorem popScope_withTables : (c.withTables T).popScope = c.withTables T.pop := by
  obtain ⟨inner, global⟩ := T
  cases inner with
  | nil => rfl
  | cons t outer =>
    have hlist : oldest (outer.flatMap (·.table) ++ global).length
        ((t :: outer).flatMap (·.table) ++ global) = outer.flatMap (·.table) ++ global :=
      oldest_of_suffix ⟨t.table, by rw [List.flatMap_cons, List.append_assoc]⟩
    exact congrArg (fun bindings => { c with
      scopes := ScopeTables.starts global outer, bindings }) hlist

/-- **Restoring marks of the same frame cuts the innermost table.** -/
theorem restore_withTables (hc : c.scopes = []) {m : Marks} (hm : m.scopes = 1) (k : Nat) :
    (c.withTables T).restore
        { m with scopes := T.depth, bindings := T.beneath.length + k } =
      (c.restore m).map (·.withTables (T.cut k)) := by
  have hdepth : c.depth = m.scopes := by rw [depth, hc, hm]; rfl
  rw [restore, restore, depth_withTables, if_neg (not_not_intro rfl),
    if_neg (not_not_intro hdepth)]
  change (if c.templates.length ≠ m.templates then _ else _) = _
  split
  · rfl
  · simp only [Except.map, withTables, T.oldest_bindings, ScopeTables.cut,
      ScopeTables.scopes_withCurrent]

end Context
end SemanticCore
