import Mathlib.Data.Finset.Card
import SemanticCore.Proofs.Graph.Primitive
import SemanticCore.Symbol.Shared

/-!
# Sharing a symbol table, call by call

Several translation units spell their identifiers through one table, and whoever holds the table
may intern spellings, look them up and read them back in between.  So a symbol is given out in one
place and used in another, after any number of calls that neither of the two knows of.  And a name
is not a symbol: every unit numbers its own names, in the order in which it first asked for them.

`SharedSymbols.run` makes a series of calls, from an empty table on, and records the answers, oldest
first.  What has to be known of the table while the calls go on is `SharedSymbols.Recorded`: the
table holds what the record says was entered, a symbol that was given stands for its spelling, and
a name that was given stands in its unit for the symbol of its spelling.  Each call keeps this.

* `SharedSymbols.internShared_eq` — looking a spelling up before it is entered changes nothing.
* `SharedSymbols.Recorded.answer` — what one call keeps.
* `SharedSymbols.run_consistent` — **all requests are answered, and all answers agree**: a spelling
  has one symbol and in each unit one name, different spellings have different ones, a symbol is
  read back as its spelling ever after, and exactly what was entered is found.
-/

set_option autoImplicit false
namespace SemanticCore

/-! ## What a table holds -/

namespace Interned

variable {κ : Type} [Coded κ] {t : Interned κ} {k : κ}

theorem mem_nodes_intern (t : Interned κ) (k k' : κ) :
    k' ∈ (t.intern k).2.nodes ↔ k' ∈ t.nodes ∨ k' = k := by
  rcases t.intern_cases k with ⟨i, hi, h⟩ | ⟨-, -, h⟩
  · have hk : k ∈ t.nodes := Array.mem_of_getElem? hi
    rw [h]
    exact ⟨.inl, fun hk' => hk'.elim id fun heq => heq ▸ hk⟩
  · rw [h, Array.mem_push]

theorem isSome_find?_iff : (t.find? k).isSome = true ↔ k ∈ t.nodes := by
  rw [Option.isSome_iff_exists, Array.mem_iff_getElem?]
  exact exists_congr fun _ => find?_eq_some_iff

/-- No value is stored twice. -/
theorem nodup_nodes (t : Interned κ) : t.nodes.toList.Nodup := by
  rw [List.nodup_iff_injective_getElem]
  rintro ⟨i, hi⟩ ⟨j, hj⟩ h
  rw [Array.length_toList] at hi hj
  have h : t.nodes[i] = t.nodes[j] := h
  have hget : t.nodes[j]? = some t.nodes[i] := h ▸ Array.getElem?_eq_getElem hj
  exact Fin.ext (index_unique (Array.getElem?_eq_getElem hi) hget)

end Interned

namespace SymbolTable

variable {t : SymbolTable} {a b : String} {x y : Symbol}

theorem spelling?_intern (t : SymbolTable) (a : String) :
    spelling? (t.intern a).2 (t.intern a).1 = some a :=
  Interned.getElem?_intern t a

theorem find?_eq_some : t.find? a = some x ↔ spelling? t x = some a := by
  obtain ⟨i⟩ := x
  rw [find?, spelling?, Option.map_eq_some_iff, ← Interned.find?_eq_some_iff]
  constructor
  · rintro ⟨j, hj, hji⟩
    cases hji
    exact hj
  · exact fun h => ⟨i, h, rfl⟩

/-- A spelling has one symbol, and a symbol has one spelling. -/
theorem symbol_eq_iff (hx : spelling? t x = some a) (hy : spelling? t y = some b) :
    x = y ↔ a = b := by
  constructor
  · rintro rfl
    exact Option.some.inj (hx.symm.trans hy)
  · rintro rfl
    exact congrArg Symbol.mk (Interned.index_unique hx hy)

end SymbolTable

/-! ## Calls -/

/-- A call to a table that is shared. -/
inductive SymbolRequest where
  /-- Enter a spelling into the table itself. -/
  | intern (a : String)
  /-- Enter a spelling unless it is found. -/
  | internShared (a : String)
  | find (a : String)
  | spell (x : Symbol)
  | count
  /-- Ask a unit for the name of an identifier. -/
  | identify (unit : Nat) (a : String)
  /-- Open a translation unit that spells through the table. -/
  | openUnit (intPrecision : UInt16)
deriving DecidableEq

/-- The request is to open a unit. -/
def SymbolRequest.opensUnit : SymbolRequest → Bool
  | openUnit _ => true
  | _ => false

/-- A call with its answer. -/
inductive SymbolCall where
  | interned (a : String) (x : Symbol)
  | found (a : String) (x? : Option Symbol)
  | spelled (x : Symbol) (a? : Option String)
  | counted (n : Nat)
  | identified (unit : Nat) (a : String) (n : NameHandle)
  | opened (intPrecision : UInt16)
deriving DecidableEq

/-- The call is what was requested, with some answer. -/
inductive SymbolRequest.AnsweredBy : SymbolRequest → SymbolCall → Prop
  | intern (a : String) (x : Symbol) : AnsweredBy (intern a) (.interned a x)
  | internShared (a : String) (x : Symbol) : AnsweredBy (internShared a) (.interned a x)
  | find (a : String) (x? : Option Symbol) : AnsweredBy (find a) (.found a x?)
  | spell (x : Symbol) (a? : Option String) : AnsweredBy (spell x) (.spelled x a?)
  | count (n : Nat) : AnsweredBy count (.counted n)
  | identify (unit : Nat) (a : String) (n : NameHandle) :
    AnsweredBy (identify unit a) (.identified unit a n)
  | openUnit (p : UInt16) : AnsweredBy (openUnit p) (.opened p)

namespace SymbolCall

/-- The spelling that is in the table after the call, whether it was new or not. -/
def entered? : SymbolCall → Option String
  | interned a _ | identified _ a _ => some a
  | found _ _ | spelled _ _ | counted _ | opened _ => none

/-- The call was answered with the symbol of the spelling. -/
def Gives (a : String) (x : Symbol) (c : SymbolCall) : Prop :=
  c = interned a x ∨ c = found a (some x)

/-- The spellings that the calls entered. -/
def entered (log : List SymbolCall) : List String :=
  log.filterMap entered?

end SymbolCall

open SymbolCall

namespace SharedSymbols

/-- Enter a spelling, where a spelling that is found is not entered again. -/
def internShared (s : SharedSymbols) (a : String) : Symbol × SharedSymbols :=
  match s.table.find? a with
  | some x => (x, s)
  | none => s.intern a

/-- The answer to a call, and what is shared after it.  Only a unit that is open can be asked. -/
def answer? (s : SharedSymbols) : SymbolRequest → Option (SymbolCall × SharedSymbols)
  | .intern a => some (.interned a (s.intern a).1, (s.intern a).2)
  | .internShared a => some (.interned a (s.internShared a).1, (s.internShared a).2)
  | .find a => some (.found a (s.table.find? a), s)
  | .spell x => some (.spelled x (s.table.spelling? x), s)
  | .count => some (.counted s.table.size, s)
  | .identify unit a => (s.identifier? unit a).map fun r => (.identified unit a r.1, r.2)
  | .openUnit p => some (.opened p, { s with graphs := s.graphs ++ [.initial s.table p] })

/-- One more call. -/
def record (run : List SymbolCall × SharedSymbols) (r : SymbolRequest) :
    List SymbolCall × SharedSymbols :=
  match run.2.answer? r with
  | some (c, s) => (run.1 ++ [c], s)
  | none => run

/-- The record of a series of calls, oldest first, and what is shared in the end. -/
def run (rs : List SymbolRequest) : List SymbolCall × SharedSymbols :=
  rs.foldl record ([], ⟨.empty, []⟩)

variable {s s' : SharedSymbols} {r : SymbolRequest} {c : SymbolCall} {a : String} {x : Symbol}

/-- **Looking a spelling up before it is entered changes nothing.** -/
theorem internShared_eq (s : SharedSymbols) (a : String) : s.internShared a = s.intern a := by
  rw [internShared]
  cases h : s.table.find? a with
  | none => rfl
  | some x =>
    have hsame := Interned.intern_of_getElem? (SymbolTable.find?_eq_some.mp h)
    rw [intern, SymbolTable.intern, hsame]

/-- A unit enters the spelling, and then asks its own names for the symbol. -/
theorem identifier?_eq_some {u : Nat} {n : NameHandle} (h : s.identifier? u a = some (n, s')) :
    ∃ g, s.graphs[u]? = some g ∧ n = ⟨(g.names.intern (.simple (s.intern a).1)).1⟩ ∧
      s'.table = (s.intern a).2.table ∧
      ∃ g', s'.graphs = s.graphs.set u g' ∧
        g'.names = (g.names.intern (.simple (s.intern a).1)).2 := by
  rw [identifier?, graph?, Option.map_map, Option.map_eq_some_iff] at h
  obtain ⟨g, hg, hrun⟩ := h
  cases hrun
  exact ⟨g, hg, rfl, rfl, _, rfl, rfl⟩

/-- Every call is answered, except by a unit that is not open. -/
theorem isSome_answer?_iff :
    (s.answer? r).isSome = true ↔ ∀ unit a, r = .identify unit a → unit < s.graphs.length := by
  cases r with
  | identify unit a => simp [answer?, identifier?, graph?]
  | _ => simp [answer?]

theorem answeredBy_of_answer? (h : s.answer? r = some (c, s')) : r.AnsweredBy c := by
  cases r with
  | identify unit a =>
    obtain ⟨_, -, hc⟩ := Option.map_eq_some_iff.mp h
    cases hc
    exact .identify ..
  | _ =>
    cases h
    constructor

/-- A request to open a unit opens one, and no other request does. -/
theorem length_graphs_of_answer? (h : s.answer? r = some (c, s')) :
    s'.graphs.length = s.graphs.length + r.opensUnit.toNat := by
  cases r with
  | internShared a =>
    rw [answer?, internShared_eq] at h
    cases h
    rfl
  | identify unit a =>
    obtain ⟨⟨n, s₁⟩, hn, hc⟩ := Option.map_eq_some_iff.mp h
    cases hc
    obtain ⟨_, -, -, -, g', hgraphs, -⟩ := identifier?_eq_some hn
    rw [hgraphs]
    exact List.length_set
  | openUnit p =>
    cases h
    exact List.length_append
  | _ =>
    cases h
    rfl

/-! ## What one call does -/

/-- The table and the names of every unit have what they had. -/
structure Keeps (s s' : SharedSymbols) : Prop where
  table : Kept s.table.nodes s'.table.nodes
  names : ∀ (unit : Nat) (g : Graph), s.graphs[unit]? = some g →
    ∃ g' : Graph, s'.graphs[unit]? = some g' ∧ Kept g.names.nodes g'.names.nodes

/-- The answers that there are, and what each call does. -/
inductive Answers (s : SharedSymbols) : SymbolCall → SharedSymbols → Prop
  | interned (a : String) : Answers s (.interned a (s.intern a).1) (s.intern a).2
  | found (a : String) : Answers s (.found a (s.table.find? a)) s
  | spelled (x : Symbol) : Answers s (.spelled x (s.table.spelling? x)) s
  | counted : Answers s (.counted s.table.size) s
  | identified {unit : Nat} {a : String} {n : NameHandle} {s' : SharedSymbols}
    (h : s.identifier? unit a = some (n, s')) : Answers s (.identified unit a n) s'
  | opened (p : UInt16) :
    Answers s (.opened p) { s with graphs := s.graphs ++ [.initial s.table p] }

theorem answers_of_answer? (h : s.answer? r = some (c, s')) : s.Answers c s' := by
  cases r with
  | intern a => cases h; exact .interned a
  | internShared a =>
    rw [answer?, internShared_eq] at h
    cases h
    exact .interned a
  | find a => cases h; exact .found a
  | spell x => cases h; exact .spelled x
  | count => cases h; exact .counted
  | identify unit a =>
    obtain ⟨⟨n, s₁⟩, hn, hc⟩ := Option.map_eq_some_iff.mp h
    cases hc
    exact .identified hn
  | openUnit p => cases h; exact .opened p

namespace Answers

/-- A call enters at most one spelling into the table. -/
theorem table_eq (h : s.Answers c s') :
    s'.table = match c.entered? with
      | some a => (s.table.intern a).2
      | none => s.table := by
  cases h with
  | identified hn =>
    obtain ⟨g, -, -, htable, -⟩ := identifier?_eq_some hn
    exact htable
  | _ => rfl

theorem kept_table (h : s.Answers c s') : Kept s.table.nodes s'.table.nodes := by
  rw [h.table_eq]
  cases c.entered? with
  | none => exact .refl _
  | some a => exact s.table.kept_intern a

theorem mem_table (h : s.Answers c s') :
    a ∈ s'.table.nodes ↔ a ∈ s.table.nodes ∨ c.entered? = some a := by
  rw [h.table_eq]
  cases c.entered? with
  | none => simp
  | some b =>
    rw [Option.some.injEq, eq_comm (a := b)]
    exact s.table.mem_nodes_intern b a

/-- Names are added to one unit, and a unit is added after the others. -/
theorem keeps (h : s.Answers c s') : s.Keeps s' := by
  refine ⟨h.kept_table, fun u g hg => ?_⟩
  have hlt : u < s.graphs.length := (List.getElem?_eq_some_iff.mp hg).1
  cases h with
  | @identified unit a n s' hn =>
    obtain ⟨g₀, hg₀, -, -, g', hgraphs, hnames⟩ := identifier?_eq_some hn
    rw [hgraphs]
    by_cases hu : unit = u
    · subst hu
      rw [hg] at hg₀
      cases hg₀
      exact ⟨g', List.getElem?_set_self hlt, hnames ▸ g.names.kept_intern _⟩
    · exact ⟨g, (List.getElem?_set_ne hu).trans hg, .refl _⟩
  | opened p => exact ⟨g, (List.getElem?_append_left hlt).trans hg, .refl _⟩
  | _ => exact ⟨g, hg, .refl _⟩

/-- A symbol that is given stands for the spelling. -/
theorem spelling? (h : s.Answers c s') (hc : c.Gives a x) : s'.table.spelling? x = some a := by
  cases h with
  | interned b =>
    obtain hc | hc := hc <;> cases hc
    exact s.table.spelling?_intern _
  | found b =>
    obtain hc | hc := hc
    · cases hc
    · rw [SymbolCall.found.injEq] at hc
      obtain ⟨rfl, hx⟩ := hc
      exact SymbolTable.find?_eq_some.mp hx
  | _ => obtain hc | hc := hc <;> cases hc

end Answers

/-- A call that only reads is answered by what the table holds. -/
def Reads (s : SharedSymbols) : SymbolCall → Prop
  | .found a x? => x? = s.table.find? a
  | .spelled x a? => a? = s.table.spelling? x
  | .counted n => n = s.table.size
  | .interned _ _ | .identified _ _ _ | .opened _ => True

theorem Answers.reads (h : s.Answers c s') : s.Reads c := by
  cases h <;> trivial

/-- In its unit the name stands for the symbol, and the symbol for the spelling. -/
def Names (s : SharedSymbols) (unit : Nat) (a : String) (n : NameHandle) : Prop :=
  ∃ g x, s.graphs[unit]? = some g ∧ g.names.nodes[n.index]? = some (.simple x) ∧
    s.table.spelling? x = some a

theorem Answers.names {unit : Nat} {n : NameHandle} (h : s.Answers (.identified unit a n) s') :
    s'.Names unit a n := by
  cases h with
  | identified hn =>
    obtain ⟨g, hg, rfl, htable, g', hgraphs, hnames⟩ := identifier?_eq_some hn
    have hlt : unit < s.graphs.length := (List.getElem?_eq_some_iff.mp hg).1
    refine ⟨g', (s.intern a).1, ?_, ?_, ?_⟩
    · rw [hgraphs, List.getElem?_set_self hlt]
    · rw [hnames]
      exact g.names.getElem?_intern _
    · rw [htable]
      exact s.table.spelling?_intern a

theorem Keeps.spelling? (h : s.Keeps s') (hx : s.table.spelling? x = some a) :
    s'.table.spelling? x = some a :=
  h.table _ _ hx

theorem Keeps.named (h : s.Keeps s') {unit : Nat} {n : NameHandle} (hn : s.Names unit a n) :
    s'.Names unit a n := by
  obtain ⟨g, x, hg, hname, hx⟩ := hn
  obtain ⟨g', hg', hkept⟩ := h.names unit g hg
  exact ⟨g', x, hg', hkept _ _ hname, h.spelling? hx⟩

/-! ## What the record says of the table -/

/-- The record of the calls so far agrees with the table and with the names of the units. -/
structure Recorded (log : List SymbolCall) (s : SharedSymbols) : Prop where
  stored : ∀ a, a ∈ s.table.nodes ↔ a ∈ entered log
  given : ∀ c ∈ log, ∀ a x, c.Gives a x → s.table.spelling? x = some a
  named : ∀ unit a n, .identified unit a n ∈ log → s.Names unit a n

namespace Recorded

variable {log : List SymbolCall}

theorem empty : Recorded [] ⟨.empty, []⟩ where
  stored a := by simp [entered, Interned.empty]
  given c hc := absurd hc List.not_mem_nil
  named _ _ _ hc := absurd hc List.not_mem_nil

/-- **Each call keeps the record in agreement.** -/
theorem answer (h : Recorded log s) (hs : s.Answers c s') : Recorded (log ++ [c]) s' where
  stored a := by
    rw [hs.mem_table, h.stored, entered, entered, List.filterMap_append, List.mem_append,
      List.mem_filterMap (l := [c])]
    simp
  given d hd a x hx := by
    rcases List.mem_append.mp hd with hd | hd
    · exact hs.keeps.spelling? (h.given d hd a x hx)
    · rw [List.mem_singleton.mp hd] at hx
      exact hs.spelling? hx
  named unit a n hn := by
    rcases List.mem_append.mp hn with hn | hn
    · exact hs.keeps.named (h.named unit a n hn)
    · rw [← List.mem_singleton.mp hn] at hs
      exact hs.names

/-- As many spellings are stored as were entered. -/
theorem size_eq (h : Recorded log s) : s.table.size = (entered log).toFinset.card := by
  have hsame : s.table.nodes.toList.toFinset = (entered log).toFinset := by
    ext a
    rw [List.mem_toFinset, List.mem_toFinset, Array.mem_toList_iff, h.stored]
  rw [← hsame, List.toFinset_card_of_nodup s.table.nodup_nodes, Array.length_toList]
  rfl

end Recorded

theorem run_append (rs : List SymbolRequest) (r : SymbolRequest) :
    run (rs ++ [r]) = record (run rs) r := by
  rw [run, List.foldl_append]
  rfl

/-- One more request is answered, or it is as if it had not been made. -/
theorem run_cases (rs : List SymbolRequest) (r : SymbolRequest) :
    (∃ c s, (run rs).2.Answers c s ∧ run (rs ++ [r]) = ((run rs).1 ++ [c], s)) ∨
      run (rs ++ [r]) = run rs := by
  rw [run_append, record]
  cases h : (run rs).2.answer? r with
  | none => exact .inr rfl
  | some p => exact .inl ⟨p.1, p.2, answers_of_answer? h, rfl⟩

/-- The answers to the first requests come first. -/
theorem run_prefix (rs rs' : List SymbolRequest) : (run rs).1 <+: (run (rs ++ rs')).1 := by
  induction rs' using List.reverseRecOn with
  | nil => rw [List.append_nil]
  | append_singleton rs' r ih =>
    rw [← List.append_assoc]
    rcases run_cases (rs ++ rs') r with ⟨c, s, -, hrun⟩ | hrun
    · rw [hrun]
      exact ih.trans (List.prefix_append _ _)
    · rwa [hrun]

/-- As many units are open as there were requests to open one. -/
theorem length_graphs_run (rs : List SymbolRequest) :
    (run rs).2.graphs.length = rs.countP SymbolRequest.opensUnit := by
  induction rs using List.reverseRecOn with
  | nil => rfl
  | append_singleton rs r ih =>
    rw [run_append, record, List.countP_append, ← ih, List.countP_singleton]
    cases h : (run rs).2.answer? r with
    | some p =>
      dsimp only
      rw [length_graphs_of_answer? h]
      cases r.opensUnit <;> rfl
    | none =>
      have hr : r.opensUnit = false := by
        cases r with
        | identify unit a => rfl
        | _ => cases h
      rw [hr]
      rfl

/-- Every request is answered, unless it goes to a unit that has not been opened before. -/
def Answered (rs : List SymbolRequest) : Prop :=
  ∀ pre r post, rs = pre ++ r :: post →
    (∀ unit a, r = .identify unit a → unit < pre.countP SymbolRequest.opensUnit) →
      ∃ c, r.AnsweredBy c ∧ (run pre).1 ++ [c] <+: (run rs).1

theorem run_answered (rs : List SymbolRequest) : Answered rs := by
  rintro pre r post rfl hopen
  rw [← length_graphs_run] at hopen
  obtain ⟨⟨c, s⟩, hanswer⟩ := Option.isSome_iff_exists.mp (isSome_answer?_iff.mpr hopen)
  refine ⟨c, answeredBy_of_answer? hanswer, ?_⟩
  have hrun : (run (pre ++ [r])).1 = (run pre).1 ++ [c] := by
    rw [run_append, record, hanswer]
  have hsplit : pre ++ r :: post = pre ++ [r] ++ post := List.append_cons pre r post
  rw [← hrun, hsplit]
  exact run_prefix (pre ++ [r]) post

theorem recorded_run (rs : List SymbolRequest) : Recorded (run rs).1 (run rs).2 := by
  induction rs using List.reverseRecOn with
  | nil => exact .empty
  | append_singleton rs r ih =>
    rcases run_cases rs r with ⟨c, s, hs, hrun⟩ | hrun
    · rw [hrun]
      exact ih.answer hs
    · rw [hrun]
      exact ih

/-- What was recorded before a call is a record in agreement, and the call read the table then. -/
theorem reads_of_run {rs : List SymbolRequest} {pre post : List SymbolCall}
    (h : (run rs).1 = pre ++ c :: post) : ∃ s, Recorded pre s ∧ s.Reads c := by
  induction rs using List.reverseRecOn generalizing post with
  | nil => exact absurd h (by simp [run])
  | append_singleton rs r ih =>
    rcases run_cases rs r with ⟨c', s', hs, hrun⟩ | hrun
    · rw [hrun] at h
      rcases List.eq_nil_or_concat post with rfl | ⟨post, c'', rfl⟩
      · obtain ⟨rfl, hc⟩ := List.append_inj' h rfl
        cases hc
        exact ⟨_, recorded_run rs, hs.reads⟩
      · rw [List.concat_eq_append, ← List.cons_append, ← List.append_assoc] at h
        exact ih (List.append_inj' h rfl).1
    · rw [hrun] at h
      exact ih h

/-! ## All answers agree -/

/-- The answers of a record agree with one another and with the units as they are in the end. -/
structure Consistent (log : List SymbolCall) (s : SharedSymbols) : Prop where
  symbol_eq_iff : ∀ a b x y, .interned a x ∈ log → .interned b y ∈ log → (x = y ↔ a = b)
  /-- A symbol is read back as the spelling that it was given for. -/
  spelled : ∀ pre post c a x a?, log = pre ++ .spelled x a? :: post → c ∈ pre → c.Gives a x →
    a? = some a
  /-- A spelling is found if it was entered before, also where it was entered for a name. -/
  found_iff : ∀ pre post a x?, log = pre ++ .found a x? :: post →
    (x?.isSome = true ↔ a ∈ entered pre)
  found_eq : ∀ pre post c a x x?, log = pre ++ .found a x? :: post → c ∈ pre → c.Gives a x →
    x? = some x
  counted : ∀ pre post n, log = pre ++ .counted n :: post → n = (entered pre).toFinset.card
  name_eq_iff : ∀ unit a b n m, .identified unit a n ∈ log → .identified unit b m ∈ log →
    (n = m ↔ a = b)
  /-- The name is that of the symbol that everybody else is given for the spelling. -/
  named : ∀ unit a n, .identified unit a n ∈ log →
    ∃ g x, s.graph? unit = some g ∧ g.contains n = true ∧ g.name n = .simple x ∧
      s.table.spelling? x = some a ∧ ∀ c ∈ log, ∀ y, c.Gives a y → y = x

namespace Recorded

variable {log : List SymbolCall}

/-- A spelling has one name in a unit, since it has one symbol. -/
theorem name_eq_iff (h : Recorded log s) {unit : Nat} {a b : String} {n m : NameHandle}
    (hn : .identified unit a n ∈ log) (hm : .identified unit b m ∈ log) : n = m ↔ a = b := by
  obtain ⟨g, x, hg, hx, hxa⟩ := h.named unit a n hn
  obtain ⟨g', y, hg', hy, hyb⟩ := h.named unit b m hm
  rw [hg] at hg'
  cases hg'
  rw [← SymbolTable.symbol_eq_iff hxa hyb]
  constructor
  · rintro rfl
    rw [hx] at hy
    cases hy
    rfl
  · rintro rfl
    exact Handle.ext (Interned.index_unique hx hy)

theorem exists_name (h : Recorded log s) {unit : Nat} {n : NameHandle}
    (hn : .identified unit a n ∈ log) :
    ∃ g x, s.graph? unit = some g ∧ g.contains n = true ∧ g.name n = .simple x ∧
      s.table.spelling? x = some a ∧ ∀ c ∈ log, ∀ y, c.Gives a y → y = x := by
  obtain ⟨g, x, hg, hx, hxa⟩ := h.named unit a n hn
  refine ⟨{ g with symbols := s.table }, x, ?_, ?_, ?_, hxa, fun c hc y hy => ?_⟩
  · rw [graph?, hg]
    rfl
  · exact Graph.contains_iff.mpr (Array.getElem?_eq_some_iff.mp hx).1
  · exact congrArg (Option.getD · default) hx
  · exact (SymbolTable.symbol_eq_iff (h.given c hc a y hy) hxa).mpr rfl

end Recorded

/-- The answers of a run agree. -/
theorem consistent_run (rs : List SymbolRequest) : Consistent (run rs).1 (run rs).2 where
  symbol_eq_iff a b x y hx hy :=
    SymbolTable.symbol_eq_iff ((recorded_run rs).given _ hx a x (.inl rfl))
      ((recorded_run rs).given _ hy b y (.inl rfl))
  spelled pre post c a x a? hlog hc hx := by
    obtain ⟨s, hs, hread⟩ := reads_of_run hlog
    exact hread.trans (hs.given c hc a x hx)
  found_iff pre post a x? hlog := by
    obtain ⟨s, hs, hread⟩ := reads_of_run hlog
    rw [← hs.stored, ← Interned.isSome_find?_iff, show x? = _ from hread, SymbolTable.find?,
      Option.isSome_map]
  found_eq pre post c a x x? hlog hc hx := by
    obtain ⟨s, hs, hread⟩ := reads_of_run hlog
    exact hread.trans (SymbolTable.find?_eq_some.mpr (hs.given c hc a x hx))
  counted pre post n hlog := by
    obtain ⟨s, hs, hread⟩ := reads_of_run hlog
    exact hread.trans hs.size_eq
  name_eq_iff unit a b n m hn hm := (recorded_run rs).name_eq_iff hn hm
  named unit a n hn := (recorded_run rs).exists_name hn

/-- **All requests are answered, and all answers agree**, whichever calls are made through whichever
units and in whichever order. -/
theorem run_consistent (rs : List SymbolRequest) :
    Answered rs ∧ Consistent (run rs).1 (run rs).2 :=
  ⟨run_answered rs, consistent_run rs⟩

/-- The second unit numbers its names in another order than the first one, and than the table. -/
example :
    (run [.openUnit 32, .openUnit 32, .intern "a", .identify 0 "b", .identify 1 "c",
      .identify 1 "b", .find "d", .internShared "c", .spell ⟨2⟩, .count]).1 =
    [.opened 32, .opened 32, .interned "a" ⟨0⟩, .identified 0 "b" ⟨1⟩, .identified 1 "c" ⟨1⟩,
      .identified 1 "b" ⟨2⟩, .found "d" none, .interned "c" ⟨2⟩, .spelled ⟨2⟩ (some "c"),
      .counted 3] := by
  decide +kernel

end SharedSymbols
end SemanticCore
