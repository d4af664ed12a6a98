import Mathlib.Data.Option.NAry
import Mathlib.Data.Prod.Lex
import Mathlib.Order.Bounds.Basic
import Mathlib.Order.WithBot
import SemanticCore.Proofs.Action.Reachable
import SemanticCore.Proofs.Interning.Request

/-!
# Common types

The operands of an arithmetic operator are brought to one type.  Arithmetic types are ranked for
this: `float` is above all integer types, a wider integer type is above a narrower one, and of two
equally wide ones the unsigned is above the signed.  `bool` takes part as `int`, and so it is ranked
by the width that the graph is configured for, which may be less than that of other integer types.

No two integer types have the same rank, so the common type, which is chosen case by case, is the
one of the higher rank.  All laws of common types are those of the maximum of two ranks.

Types are handles, and looking for a common type may add `int` to the graph.  Nothing else is ever
added, so computations of common types that start from one graph end in graphs that can be compared.

* `Graph.WellFormed.commonPromoted?_eq` — the common type of two ranked types is the one that ranks
  higher.
* `Graph.WellFormed.commonType?_ranked` — what is found is ranked as the higher of the operands.
* `Graph.WellFormed.commonTypeLaws` — **common types exist for arithmetic types and are least upper
  bounds; the order of the operands and how they are grouped make no difference.**
-/

set_option autoImplicit false
namespace SemanticCore

open SemanticCore.Graph

/-! ## Ranks -/

/-- The place of an arithmetic type among the others: integer types by their width and then by
whether they are unsigned, and `float` above all of them. -/
abbrev ArithmeticRank := WithTop (ℕ ×ₗ Bool)

namespace TypeForm

/-- The rank of an arithmetic type other than `bool`. -/
def rank? : TypeForm → Option ArithmeticRank
  | int signed precision => some (WithTop.some (toLex (precision.toNat, !signed)))
  | float => some ⊤
  | _ => none

/-- The form in which a type takes part in arithmetic, where `int` has the given width. -/
def promoted (intPrecision : UInt16) : TypeForm → TypeForm
  | bool => int true intPrecision
  | f => f

/-- No two types have the same rank. -/
theorem rank?_injective {f f' : TypeForm} {k : ArithmeticRank} (h : f.rank? = some k)
    (h' : f'.rank? = some k) : f = f' := by
  have heq := h.trans h'.symm
  cases f with
  | int s p =>
    cases f' with
    | int s' p' =>
      have hkey : toLex (p.toNat, !s) = toLex (p'.toNat, !s') :=
        WithTop.coe_injective (Option.some.inj heq)
      obtain ⟨hp, hs⟩ := Prod.mk.inj (toLex.injective hkey)
      rw [UInt16.toNat_inj.1 hp, Bool.not_inj hs]
    | float => cases heq
    | _ => cases h'
  | float =>
    cases f' with
    | int s' p' => cases heq
    | float => rfl
    | _ => cases h'
  | _ => cases h

theorem promoted_of_rank? {f : TypeForm} {k : ArithmeticRank} (h : f.rank? = some k) (n : UInt16) :
    f.promoted n = f := by
  cases f with
  | bool => cases h
  | _ => rfl

theorem isSome_rank?_promoted (f : TypeForm) (n : UInt16) :
    (f.promoted n).rank?.isSome = f.isArithmetic := by
  cases f <;> rfl

/-- The integer type that is chosen for two integer types is the one that ranks higher. -/
theorem joined_int {ls rs : Bool} {lp rp : UInt16} {k k' : ArithmeticRank}
    (hk : (int ls lp).rank? = some k) (hk' : (int rs rp).rank? = some k') :
    int (if rp < lp then ls else if lp < rp then rs else ls && rs) (max lp rp) =
      if k ≤ k' then int rs rp else int ls lp := by
  have hmax : max lp rp = if lp ≤ rp then rp else lp := rfl
  cases hk
  cases hk'
  simp only [hmax, WithTop.coe_le_coe, Prod.Lex.toLex_le_toLex, UInt16.lt_iff_toNat_lt,
    UInt16.le_iff_toNat_le]
  rcases Nat.lt_trichotomy lp.toNat rp.toNat with hlt | heq | hgt
  · rw [if_neg hlt.asymm, if_pos hlt, if_pos hlt.le, if_pos (.inl hlt)]
  · rw [UInt16.toNat_inj.1 heq]
    cases ls <;> cases rs <;> simp
  · rw [if_pos hgt, if_neg hgt.not_ge, if_neg (by rintro (h | ⟨h, -⟩) <;> omega)]

end TypeForm

namespace Graph

variable {g g' : Graph} {a b t u v : TypeHandle} {k k' : ArithmeticRank}

/-- The type is in the graph and has the rank. -/
def HasRank (g : Graph) (t : TypeHandle) (k : ArithmeticRank) : Prop :=
  g.contains t = true ∧ (g.type t).rank? = some k

/-- The rank of the type with which an operand takes part in arithmetic. -/
def operandRank? (g : Graph) (t : TypeHandle) : Option ArithmeticRank :=
  ((g.type t).promoted g.intPrecision).rank?

theorem HasRank.extend (h : g.HasRank t k) (hext : g.Extends g') : g'.HasRank t k :=
  ⟨hext.contains h.1, by rw [hext.type h.1]; exact h.2⟩

/-- There is one type of each rank. -/
theorem HasRank.eq (hu : g.HasRank u k) (hv : g.HasRank v k) : u = v :=
  type_injective hu.1 hv.1 (TypeForm.rank?_injective hu.2 hv.2)

/-- A type that has a rank takes part in arithmetic as it is. -/
theorem HasRank.operandRank? (h : g.HasRank t k) : g.operandRank? t = some k := by
  rw [Graph.operandRank?, TypeForm.promoted_of_rank? h.2]
  exact h.2

theorem operandRank?_extend (hext : g.Extends g') (ht : g.contains t = true) :
    g'.operandRank? t = g.operandRank? t := by
  rw [operandRank?, operandRank?, hext.type ht, hext.intPrecision]

theorem isSome_operandRank? (g : Graph) (t : TypeHandle) :
    (g.operandRank? t).isSome = (g.type t).isArithmetic :=
  TypeForm.isSome_rank?_promoted _ _

/-- The type that may have been found has the rank that is wanted, and none has been found if there
is no such rank. -/
def Ranked (g : Graph) : Option TypeHandle → Option ArithmeticRank → Prop :=
  Option.Rel g.HasRank

theorem Ranked.extend {r : Option TypeHandle} {k : Option ArithmeticRank} (h : g.Ranked r k)
    (hext : g.Extends g') : g'.Ranked r k := by
  cases h with
  | some h => exact .some (h.extend hext)
  | none => exact .none

theorem Ranked.eq {r r' : Option TypeHandle} {k : Option ArithmeticRank} (h : g.Ranked r k)
    (h' : g.Ranked r' k) : r = r' := by
  cases h with
  | some h =>
    cases h' with
    | some h' => rw [h.eq h']
  | none =>
    cases h' with
    | none => rfl

theorem Ranked.exists_rank {k : Option ArithmeticRank} (h : g.Ranked (some t) k) :
    ∃ k, g.HasRank t k := by
  cases h with
  | some h => exact ⟨_, h⟩

theorem Ranked.isSome {r : Option TypeHandle} {k : Option ArithmeticRank} (h : g.Ranked r k) :
    r.isSome = k.isSome := by
  cases h <;> rfl

/-! ## Graphs with `int` -/

/-- The second graph is the first one, or has got `int` in addition. -/
def WithInt (g g' : Graph) : Prop :=
  g' = g ∨ g' = (Build.intType g).2

theorem intType_again (g : Graph) :
    Build.intType (Build.intType g).2 = ((Build.intType g).1, (Build.intType g).2) := by
  obtain ⟨hgrow, hc, hf⟩ := Build.Yields.intType (g := g)
  have hagain : Build.type (.int true (Build.intType g).2.intPrecision) (Build.intType g).2 =
      ((Build.intType g).1, (Build.intType g).2) := by
    rw [hgrow.extends.intPrecision]
    exact type_again hc hf
  exact hagain

theorem WithInt.trans {g'' : Graph} (h : g.WithInt g') (h' : g'.WithInt g'') : g.WithInt g'' := by
  rcases h with rfl | rfl
  · exact h'
  · rcases h' with rfl | rfl
    · exact .inr rfl
    · exact .inr (congrArg Prod.snd (intType_again g))

/-- What has been computed is part of the graph that has `int`. -/
theorem WithInt.extends_intType (h : g.WithInt g') : g'.Extends (Build.intType g).2 := by
  rcases h with rfl | rfl
  · exact Build.Yields.intType.1.extends
  · exact .refl _

/-! ## Finding a common type -/

/-- The computation finds a type of the given rank, if there is one, and adds nothing but `int`. -/
abbrev Ranks (g : Graph) (x : Build (Option TypeHandle)) (k : Option ArithmeticRank) : Prop :=
  Build.Yields g x fun r g' => g.WithInt g' ∧ g'.Ranked r k

theorem promote?_ranked (ht : g.contains t = true) :
    g.Ranks (Build.promote? t) (g.operandRank? t) := by
  rw [operandRank?]
  refine .get_bind ?_
  cases hf : g.type t with
  | bool =>
    obtain ⟨hgrow, hc, hint⟩ := Build.Yields.intType (g := g)
    exact ⟨hgrow, .inr rfl, .some ⟨hc, (congrArg TypeForm.rank? hint)⟩⟩
  | int s p => exact .pure ⟨.inl rfl, .some ⟨ht, by rw [hf]; rfl⟩⟩
  | float => exact .pure ⟨.inl rfl, .some ⟨ht, by rw [hf]; rfl⟩⟩
  | _ => exact .pure ⟨.inl rfl, .none⟩

end Graph

/-- The common type of two types that take part in arithmetic as they are. -/
def Build.commonPromoted? (lhs rhs : TypeHandle) : Build (Option TypeHandle) := do
  match (← get).type lhs, (← get).type rhs with
  | .float, _ | _, .float => return some .float
  | .int ls lp, .int rs rp =>
    let signed := if rp < lp then ls else if lp < rp then rs else ls && rs
    return some (← intTypeOf signed (max lp rp))
  | _, _ => return none

theorem Build.commonType?_eq (a b : TypeHandle) : commonType? a b = do
    match ← promote? a with
    | some u =>
      match ← promote? b with
      | some v => commonPromoted? u v
      | none => return none
    | none => return none := by
  rw [commonType?]
  refine congrArg _ (funext fun r => ?_)
  cases r with
  | none => rfl
  | some u =>
    refine congrArg (promote? b >>= ·) (funext fun r => ?_)
    cases r with
    | none => rfl
    | some v => rfl

namespace Graph

variable {g g' : Graph} {a b c t u v : TypeHandle} {k k' : ArithmeticRank}

/-- Of two ranked types, the one that ranks higher has the maximum of the ranks. -/
theorem HasRank.higher (hu : g.HasRank u k) (hv : g.HasRank v k') :
    g.HasRank (if k ≤ k' then v else u) (max k k') := by
  split
  · next hle => rwa [max_eq_right hle]
  · next hle => rwa [max_eq_left (le_of_not_ge hle)]

/-- **The common type of two ranked types is the one that ranks higher**, and nothing is added. -/
theorem WellFormed.commonPromoted?_eq (hg : g.WellFormed) (hu : g.HasRank u k)
    (hv : g.HasRank v k') :
    Build.commonPromoted? u v g = (some (if k ≤ k' then v else u), g) := by
  have hmax := hu.higher hv
  have hfloat : g.HasRank .float ⊤ :=
    ⟨hg.contains_float, congrArg (fun f => (f.getD default).rank?) hg.float⟩
  have hk := hu.2
  have hk' := hv.2
  rw [Build.commonPromoted?, Build.get_bind, Build.get_bind]
  cases hfu : g.type u with
  | float =>
    rw [hfu] at hk
    cases hk
    rw [top_sup_eq] at hmax
    rw [hmax.eq hfloat]
    rfl
  | int ls lp =>
    cases hfv : g.type v with
    | float =>
      rw [hfv] at hk'
      cases hk'
      rw [sup_top_eq] at hmax
      rw [hmax.eq hfloat]
      rfl
    | int rs rp =>
      rw [hfu] at hk
      rw [hfv] at hk'
      have hform : g.type (if k ≤ k' then v else u) =
          .int (if rp < lp then ls else if lp < rp then rs else ls && rs) (max lp rp) := by
        rw [TypeForm.joined_int hk hk', ← hfu, ← hfv]
        exact apply_ite g.type _ _ _
      have hagain := type_again hmax.1 hform
      exact congrArg (fun r : TypeHandle × Graph => (some r.1, r.2)) hagain
    | _ => rw [hfv] at hk'; cases hk'
  | _ => rw [hfu] at hk; cases hk

theorem WellFormed.commonPromoted?_ranked (hg : g.WellFormed) (hu : g.HasRank u k)
    (hv : g.HasRank v k') : g.Ranks (Build.commonPromoted? u v) (some (max k k')) := by
  have hrun := hg.commonPromoted?_eq hu hv
  rw [Ranks, Build.Yields, hrun]
  exact ⟨.refl g, .inl rfl, .some (hu.higher hv)⟩

/-- One step of a computation that finds a common type. -/
theorem Ranks.bind (hg : g.WellFormed) {x : Build (Option TypeHandle)}
    {f : TypeHandle → Build (Option TypeHandle)} {r : Option ArithmeticRank}
    {rest : ArithmeticRank → Option ArithmeticRank} (hx : g.Ranks x r)
    (hf : ∀ u k g', g.Grows g' → g'.WellFormed → g'.HasRank u k → g'.Ranks (f u) (rest k)) :
    g.Ranks (do
      match ← x with
      | some u => f u
      | none => return none) (r.bind rest) := by
  refine Build.Yields.bind hg hx fun o g' hgrow hg' ho => ?_
  obtain ⟨hint, hranked⟩ := ho
  cases hranked with
  | none => exact .pure ⟨hint, .none⟩
  | some h => exact (hf _ _ g' hgrow hg' h).mono fun _ _ h' => ⟨hint.trans h'.1, h'.2⟩

/-- **What is found is ranked as the higher of the two operands**, and nothing is found if one of
them has no rank. -/
theorem WellFormed.commonType?_ranked (hg : g.WellFormed) (ha : g.contains a = true)
    (hb : g.contains b = true) :
    g.Ranks (Build.commonType? a b) (Option.map₂ max (g.operandRank? a) (g.operandRank? b)) := by
  rw [Build.commonType?_eq]
  refine Ranks.bind hg (promote?_ranked ha) fun u k g₁ hgrow₁ hg₁ hu => ?_
  rw [← operandRank?_extend hgrow₁.extends hb, Option.map_eq_bind]
  refine Ranks.bind hg₁ (promote?_ranked (hgrow₁.contains hb)) fun v k' g₂ hgrow₂ hg₂ hv => ?_
  exact hg₂.commonPromoted?_ranked (hu.extend hgrow₂.extends) hv

/-! ## The laws of common types -/

section Laws

variable {x y : Build (Option TypeHandle)} {r : Option ArithmeticRank}

/-- Computations on one graph that find a type of the same rank find the same type. -/
theorem Ranks.eq (hx : g.Ranks x r) (hy : g.Ranks y r) : (x g).1 = (y g).1 :=
  (hx.2.2.extend hx.2.1.extends_intType).eq (hy.2.2.extend hy.2.1.extends_intType)

/-- They do so as well if one is run on what has become of the graph after the other. -/
theorem Ranks.eq_later (hg : g.WellFormed) (hx : g.Ranks x r) (hev : (x g).2.Evolves g')
    (hy : g'.Ranks y r) : (y g').1 = (x g).1 := by
  have hgrow := hev.grows (hx.1.wellFormed hg)
  exact hy.2.2.eq (hx.2.2.extend (hgrow.extends.trans hy.1.extends))

end Laws
end Graph

/-- The common type of three types, that of the first two first. -/
def Build.commonLeft? (a b c : TypeHandle) : Build (Option TypeHandle) := do
  match ← commonType? a b with
  | some u => commonType? u c
  | none => return none

/-- The common type of three types, that of the last two first. -/
def Build.commonRight? (a b c : TypeHandle) : Build (Option TypeHandle) := do
  match ← commonType? b c with
  | some u => commonType? a u
  | none => return none

namespace Graph

variable {g g' : Graph} {a b c : TypeHandle}

theorem WellFormed.commonLeft?_ranked (hg : g.WellFormed) (ha : g.contains a = true)
    (hb : g.contains b = true) (hc : g.contains c = true) :
    g.Ranks (Build.commonLeft? a b c)
      (Option.map₂ max (Option.map₂ max (g.operandRank? a) (g.operandRank? b))
        (g.operandRank? c)) := by
  refine Ranks.bind hg (hg.commonType?_ranked ha hb) fun u k g' hgrow hg' hu => ?_
  have hranks := hg'.commonType?_ranked hu.1 (hgrow.contains hc)
  rwa [hu.operandRank?, operandRank?_extend hgrow.extends hc] at hranks

theorem WellFormed.commonRight?_ranked (hg : g.WellFormed) (ha : g.contains a = true)
    (hb : g.contains b = true) (hc : g.contains c = true) :
    g.Ranks (Build.commonRight? a b c)
      (Option.map₂ max (g.operandRank? a)
        (Option.map₂ max (g.operandRank? b) (g.operandRank? c))) := by
  rw [Option.map₂_comm max_comm]
  refine Ranks.bind hg (hg.commonType?_ranked hb hc) fun u k g' hgrow hg' hu => ?_
  have hranks := hg'.commonType?_ranked (hgrow.contains ha) hu.1
  rwa [hu.operandRank?, operandRank?_extend hgrow.extends ha, Option.map₂_comm max_comm] at hranks

/-- The laws of common types, for types of one graph. -/
structure CommonTypeLaws (g : Graph) : Prop where
  /-- There is a common type exactly if both types are `bool`, integer types or `float`. -/
  isSome_iff : ∀ a b, g.contains a = true → g.contains b = true →
    ((Build.commonType? a b g).1.isSome = true ↔
      (g.type a).isArithmetic = true ∧ (g.type b).isArithmetic = true)
  /-- The order of the types makes no difference, -/
  comm : ∀ a b, g.contains a = true → g.contains b = true →
    (Build.commonType? b a g).1 = (Build.commonType? a b g).1
  /-- nor if the common type is looked for again at a later time. -/
  comm_later : ∀ a b g', g.contains a = true → g.contains b = true →
    (Build.commonType? a b g).2.Evolves g' →
      (Build.commonType? b a g').1 = (Build.commonType? a b g).1
  /-- Three types may be grouped in either way, -/
  assoc : ∀ a b c, g.contains a = true → g.contains b = true → g.contains c = true →
    (Build.commonRight? a b c g).1 = (Build.commonLeft? a b c g).1
  /-- also at a later time. -/
  assoc_later : ∀ a b c g', g.contains a = true → g.contains b = true → g.contains c = true →
    (Build.commonLeft? a b c g).2.Evolves g' →
      (Build.commonRight? a b c g').1 = (Build.commonLeft? a b c g).1
  /-- The common type is the least upper bound of the promoted types. -/
  isLUB : ∀ a b u, g.contains a = true → g.contains b = true →
    (Build.commonType? a b g).1 = some u → ∃ p q k k' m,
      ((Build.promote? a g).1 = some p ∧ Graph.HasRank (Build.promote? a g).2 p k) ∧
      ((Build.promote? b g).1 = some q ∧ Graph.HasRank (Build.promote? b g).2 q k') ∧
      Graph.HasRank (Build.commonType? a b g).2 u m ∧ IsLUB {k, k'} m

/-- **Common types are least upper bounds.** -/
theorem WellFormed.commonTypeLaws (hg : g.WellFormed) : g.CommonTypeLaws where
  isSome_iff a b ha hb := by
    rw [(hg.commonType?_ranked ha hb).2.2.isSome, ← g.isSome_operandRank? a,
      ← g.isSome_operandRank? b]
    cases g.operandRank? a <;> cases g.operandRank? b <;> simp
  comm a b ha hb := by
    refine (hg.commonType?_ranked hb ha).eq ?_
    rw [Option.map₂_comm max_comm]
    exact hg.commonType?_ranked ha hb
  comm_later a b g' ha hb hev := by
    have hx := hg.commonType?_ranked ha hb
    have hgrow := hx.1.trans (hev.grows (hx.1.wellFormed hg))
    refine hx.eq_later hg hev ?_
    rw [Option.map₂_comm max_comm, ← operandRank?_extend hgrow.extends ha,
      ← operandRank?_extend hgrow.extends hb]
    exact (hgrow.wellFormed hg).commonType?_ranked (hgrow.contains hb) (hgrow.contains ha)
  assoc a b c ha hb hc := by
    refine (hg.commonRight?_ranked ha hb hc).eq ?_
    rw [← Option.map₂_assoc max_assoc]
    exact hg.commonLeft?_ranked ha hb hc
  assoc_later a b c g' ha hb hc hev := by
    have hx := hg.commonLeft?_ranked ha hb hc
    have hgrow := hx.1.trans (hev.grows (hx.1.wellFormed hg))
    refine hx.eq_later hg hev ?_
    rw [Option.map₂_assoc max_assoc, ← operandRank?_extend hgrow.extends ha,
      ← operandRank?_extend hgrow.extends hb, ← operandRank?_extend hgrow.extends hc]
    exact (hgrow.wellFormed hg).commonRight?_ranked (hgrow.contains ha) (hgrow.contains hb)
      (hgrow.contains hc)
  isLUB a b u ha hb h := by
    have hp := (promote?_ranked ha).2.2
    have hq := (promote?_ranked hb).2.2
    have hu := (hg.commonType?_ranked ha hb).2.2
    rw [h] at hu
    generalize (Build.promote? a g).1 = p?, g.operandRank? a = k? at hp hu ⊢
    generalize (Build.promote? b g).1 = q?, g.operandRank? b = k'? at hq hu ⊢
    -- without both ranks there would be no rank for what has been found
    cases hp with
    | none => cases hu
    | some hp =>
      cases hq with
      | none => cases hu
      | some hq =>
        cases hu with
        | some hu => exact ⟨_, _, _, _, _, ⟨rfl, hp⟩, ⟨rfl, hq⟩, hu, isLUB_pair⟩

end Graph
end SemanticCore
