import Mathlib.Data.List.Pairwise
import SemanticCore.Proofs.Diagnostic.Queue

/-!
# The order in which diagnostics are shown

A flush sorts by position, and the sort is stable.  Diagnostics without a place have to come after
all others, so they are given the largest position that there is.  But a diagnostic may well begin
at that position, and then the sort takes the two for equal and keeps the order of the reports.

`DiagnosticQueue.InSourceOrder last` says what a reader expects of the order, where `last` picks the
diagnostics that are meant to stand last.  If these are all that count as standing at the largest
position, a flush meets it whatever was reported.

* `filter_mergeSort` — a stable sort does not move elements past each other that it takes for equal.
* `eq_filter_append_filter_iff` — what it means that some elements of a list stand last.
* `DiagnosticQueue.InSourceOrder.unique` — there is only one such order.
* `DiagnosticQueue.flush_inSourceOrder_iff` — **diagnostics without a place come last exactly if
  none of them was reported before one that begins at the largest position.**
-/

set_option autoImplicit false
namespace SemanticCore

/-! ## Lists -/

section Lists

variable {α : Type} {p : α → Bool} {l : List α}

/-- A stable sort does not move elements past each other that it takes for equal. -/
theorem filter_mergeSort {le : α → α → Bool} (htrans : ∀ a b c, le a b → le b c → le a c)
    (htotal : ∀ a b, le a b || le b a) (hp : ∀ a b, p a → p b → le a b) :
    (l.mergeSort le).filter p = l.filter p := by
  have hpairwise : (l.filter p).Pairwise fun a b => le a b = true :=
    List.pairwise_filter.2 (List.pairwise_of_forall hp)
  have hsub := (List.sublist_mergeSort htrans htotal hpairwise List.filter_sublist).filter p
  simp only [List.filter_filter, Bool.and_self] at hsub
  exact (hsub.eq_of_length ((List.mergeSort_perm l le).filter p).length_eq.symm).symm

/-- The elements that satisfy a predicate stand last if nothing else comes after one of them. -/
theorem eq_filter_append_filter_iff :
    l = l.filter (!p ·) ++ l.filter p ↔ l.Pairwise fun a b => p a → p b := by
  constructor
  · intro h
    rw [h, List.pairwise_append]
    exact ⟨List.pairwise_filter.2 (List.pairwise_of_forall (by simp +contextual)),
      List.pairwise_filter.2 (List.pairwise_of_forall (by simp +contextual)),
      by simp +contextual⟩
  · intro h
    induction l with
    | nil => rfl
    | cons a l ih =>
      obtain ⟨ha, hl⟩ := List.pairwise_cons.1 h
      cases hpa : p a with
      | false => simpa [hpa] using ih hl
      | true =>
        have hall : ∀ b ∈ l, p b = true := fun b hb => ha b hb hpa
        have hnone : l.filter (!p ·) = [] := List.filter_eq_nil_iff.2 (by simpa using hall)
        simp [hpa, hnone, List.filter_eq_self.2 hall]

theorem mem_of_filter_eq {κ : Type} [DecidableEq κ] {key : α → κ} {l' : List α}
    (h : ∀ k, l.filter (key · = k) = l'.filter (key · = k)) {a : α} (ha : a ∈ l) : a ∈ l' := by
  have hfilter : a ∈ l.filter (key · = key a) := List.mem_filter.2 ⟨ha, decide_eq_true rfl⟩
  rw [h] at hfilter
  exact List.mem_of_mem_filter hfilter

/-- A sorted list is determined by what it has at each position. -/
theorem eq_of_filter_eq {key : α → UInt32} {l' : List α}
    (hl : l.Pairwise fun a b => key a ≤ key b) (hl' : l'.Pairwise fun a b => key a ≤ key b)
    (h : ∀ k, l.filter (key · = k) = l'.filter (key · = k)) : l = l' := by
  induction l generalizing l' with
  | nil =>
    exact (List.eq_nil_iff_forall_not_mem.2 fun a ha =>
      List.not_mem_nil (mem_of_filter_eq (fun k => (h k).symm) ha)).symm
  | cons a l ih =>
    cases l' with
    | nil => exact absurd (mem_of_filter_eq h List.mem_cons_self) List.not_mem_nil
    | cons b l' =>
      obtain ⟨ha, hrest⟩ := List.pairwise_cons.1 hl
      obtain ⟨hb, hrest'⟩ := List.pairwise_cons.1 hl'
      -- each of the two heads is in the other list, and so not before the other one
      have hkey : key a = key b := by
        refine UInt32.le_antisymm ?_ ?_
        · have hmem := mem_of_filter_eq (fun k => (h k).symm) (List.mem_cons_self (l := l'))
          rcases List.mem_cons.1 hmem with heq | hmem
          · exact UInt32.le_of_eq (congrArg key heq.symm)
          · exact ha b hmem
        · rcases List.mem_cons.1 (mem_of_filter_eq h List.mem_cons_self) with heq | hmem
          · exact UInt32.le_of_eq (congrArg key heq.symm)
          · exact hb a hmem
      have hhead := h (key a)
      rw [List.filter_cons_of_pos (by simp), List.filter_cons_of_pos (by simp [hkey])] at hhead
      obtain ⟨rfl, -⟩ := List.cons.inj hhead
      refine congrArg (a :: ·) (ih hrest hrest' fun k => ?_)
      have htail := h k
      by_cases hk : key a = k
      · simpa [hk] using htail
      · simpa [hk] using htail

end Lists

/-! ## Places -/

/-- The position at which the place of the problem begins. -/
def Diagnostic.start? (d : Diagnostic) : Option UInt32 :=
  d.primarySpan?.map (·.start)

namespace DiagnosticQueue

/-- The largest position. -/
def lastPosition : UInt32 := 0xFFFFFFFF

theorem le_lastPosition (p : UInt32) : p ≤ lastPosition :=
  UInt32.le_iff_toNat_le.2 (Nat.le_of_lt_succ p.toNat_lt)

theorem sortKey_eq (d : Diagnostic) : sortKey d = d.start?.getD lastPosition := by
  rw [sortKey, Diagnostic.start?]
  cases d.primarySpan? <;> rfl

/-- The diagnostic counts as standing at the largest position: it begins there, or has no place. -/
def standsLast (d : Diagnostic) : Bool :=
  sortKey d = lastPosition

/-- The diagnostic has no place. -/
def unplaced (d : Diagnostic) : Bool :=
  d.start?.isNone

theorem standsLast_iff {d : Diagnostic} :
    standsLast d = true ↔ unplaced d = true ∨ d.start? = some lastPosition := by
  rw [standsLast, decide_eq_true_iff, sortKey_eq, unplaced]
  cases d.start? <;> simp

/-- What a reader expects of the order in which the reported diagnostics are shown.  Of two that
have a place the one that begins earlier is shown first, and of those that begin at one position the
one that was reported first. -/
structure InSourceOrder (last : Diagnostic → Bool) (reported shown : List Diagnostic) : Prop where
  perm : shown.Perm reported
  /-- Those that are meant to stand last do so, in the order in which they were reported. -/
  parts : shown = shown.filter (!last ·) ++ reported.filter last
  ordered : shown.Pairwise fun a b => ∀ p ∈ a.start?, ∀ p' ∈ b.start?, p ≤ p'
  stable : ∀ p, shown.filter (·.start? = some p) = reported.filter (·.start? = some p)

/-- No other order is meant, if what has no place is among what stands last. -/
theorem InSourceOrder.unique {last : Diagnostic → Bool} {reported shown shown' : List Diagnostic}
    (h : InSourceOrder last reported shown) (h' : InSourceOrder last reported shown')
    (hlast : ∀ d, unplaced d → last d) : shown = shown' := by
  have hplace : ∀ {d : Diagnostic}, (!last d) = true → d.start? = some (sortKey d) := by
    intro d hd
    cases hstart : d.start? with
    | none =>
      rw [hlast d (by rw [unplaced, hstart]; rfl)] at hd
      cases hd
    | some p => rw [sortKey_eq, hstart, Option.getD_some]
  have hsorted : ∀ {l}, InSourceOrder last reported l →
      (l.filter (!last ·)).Pairwise fun a b => sortKey a ≤ sortKey b := by
    intro l hl
    exact List.pairwise_filter.2 (hl.ordered.imp fun hab ha hb => hab _ (hplace ha) _ (hplace hb))
  have hfilter : ∀ {l}, InSourceOrder last reported l → ∀ k,
      (l.filter (!last ·)).filter (sortKey · = k) =
        (reported.filter (·.start? = some k)).filter (!last ·) := by
    intro l hl k
    rw [← hl.stable k, List.filter_filter, List.filter_filter]
    refine List.filter_congr fun d _ => ?_
    cases hd : !last d with
    | false => simp
    | true => simp [hplace hd]
  rw [h.parts, h'.parts, eq_of_filter_eq (hsorted h) (hsorted h') fun k =>
    (hfilter h k).trans (hfilter h' k).symm]

/-! ## What a flush shows -/

variable (q : DiagnosticQueue)

theorem flush_perm : q.flush.1.Perm q.diagnostics :=
  List.mergeSort_perm _ _

theorem sortKey_trans (a b c : Diagnostic) :
    decide (sortKey a ≤ sortKey b) → decide (sortKey b ≤ sortKey c) →
      decide (sortKey a ≤ sortKey c) := by
  simpa using UInt32.le_trans

theorem sortKey_total (a b : Diagnostic) :
    decide (sortKey a ≤ sortKey b) || decide (sortKey b ≤ sortKey a) := by
  simpa using UInt32.le_total (sortKey a) (sortKey b)

theorem flush_pairwise : q.flush.1.Pairwise fun a b => sortKey a ≤ sortKey b :=
  (List.pairwise_mergeSort sortKey_trans sortKey_total q.diagnostics).imp of_decide_eq_true

theorem filter_flush {p : Diagnostic → Bool} (hp : ∀ a b, p a → p b → sortKey a = sortKey b) :
    q.flush.1.filter p = q.diagnostics.filter p :=
  filter_mergeSort sortKey_trans sortKey_total fun a b ha hb =>
    decide_eq_true (UInt32.le_of_eq (hp a b ha hb))

/-- **A flush is in source order as soon as nothing else comes after what is meant to stand last**,
if the sort takes all of that for equal. -/
theorem inSourceOrder_flush_iff {last : Diagnostic → Bool}
    (hlast : ∀ a b, last a → last b → sortKey a = sortKey b) :
    InSourceOrder last q.diagnostics q.flush.1 ↔ q.flush.1.Pairwise fun a b => last a → last b := by
  rw [← eq_filter_append_filter_iff, filter_flush q hlast]
  refine ⟨InSourceOrder.parts, fun hparts => ⟨flush_perm q, hparts, ?_, fun p => ?_⟩⟩
  · refine (flush_pairwise q).imp fun {a b} hab p hp p' hp' => ?_
    rwa [sortKey_eq, sortKey_eq, hp, hp'] at hab
  · refine filter_flush q fun a b ha hb => ?_
    rw [decide_eq_true_iff] at ha hb
    rw [sortKey_eq, sortKey_eq, ha, hb]

theorem standsLast_of_unplaced {d : Diagnostic} (h : unplaced d = true) : standsLast d = true :=
  standsLast_iff.2 (.inl h)

theorem sortKey_eq_of_standsLast (a b : Diagnostic) (ha : standsLast a = true)
    (hb : standsLast b = true) : sortKey a = sortKey b :=
  (of_decide_eq_true ha).trans (of_decide_eq_true hb).symm

theorem flush_standsLast : q.flush.1.Pairwise fun a b => standsLast a → standsLast b := by
  refine (flush_pairwise q).imp fun {a b} hab ha => ?_
  rw [standsLast, decide_eq_true_iff] at ha ⊢
  exact UInt32.le_antisymm (le_lastPosition _) (ha ▸ hab)

/-- Among what stands last the sort keeps the order of the reports, so a diagnostic without a place
comes before one that has a place exactly if it was reported before it. -/
theorem flush_unplaced_iff :
    (q.flush.1.Pairwise fun a b => unplaced a → unplaced b) ↔
      q.diagnostics.Pairwise fun a b => unplaced a → b.start? ≠ some lastPosition := by
  calc
    (q.flush.1.Pairwise fun a b => unplaced a → unplaced b) ↔
        q.flush.1.Pairwise fun a b => standsLast a → standsLast b → unplaced a → unplaced b := by
      refine ⟨fun h => h.imp fun hab _ _ => hab, fun h => ?_⟩
      refine (h.and (flush_standsLast q)).imp fun ⟨hab, hlast⟩ ha => ?_
      exact hab (standsLast_of_unplaced ha) (hlast (standsLast_of_unplaced ha)) ha
    _ ↔ (q.diagnostics.filter standsLast).Pairwise fun a b => unplaced a → unplaced b := by
      rw [← List.pairwise_filter, filter_flush q sortKey_eq_of_standsLast]
    _ ↔ q.diagnostics.Pairwise fun a b => standsLast a → standsLast b → unplaced a → unplaced b :=
      List.pairwise_filter
    _ ↔ q.diagnostics.Pairwise fun a b => unplaced a → b.start? ≠ some lastPosition := by
      refine List.Pairwise.iff fun {a b} => ?_
      constructor
      · intro h ha hb
        have hplace := h (standsLast_of_unplaced ha) (standsLast_iff.2 (.inr hb)) ha
        rw [unplaced, hb] at hplace
        cases hplace
      · intro h _ hb ha
        exact (standsLast_iff.1 hb).resolve_right (h ha)

/-- **What a flush shows, and what it leaves.**  It shows the diagnostics in the one order in which
those that count as standing at the largest position come last.  Those without a place come last
exactly if none of them was reported before one that begins at the largest position.  The queue is
empty afterwards, and its counts are zero. -/
theorem flush_inSourceOrder_iff :
    (∀ shown, InSourceOrder standsLast q.diagnostics shown ↔ shown = q.flush.1) ∧
    (InSourceOrder unplaced q.diagnostics q.flush.1 ↔
      q.diagnostics.Pairwise fun a b => unplaced a → b.start? ≠ some lastPosition) ∧
    q.flush.2 = .empty q.config := by
  have hflush : InSourceOrder standsLast q.diagnostics q.flush.1 :=
    (inSourceOrder_flush_iff q sortKey_eq_of_standsLast).2 (flush_standsLast q)
  refine ⟨fun shown => ⟨fun h => h.unique hflush fun _ => standsLast_of_unplaced, ?_⟩, ?_, rfl⟩
  · rintro rfl
    exact hflush
  · rw [← flush_unplaced_iff]
    exact inSourceOrder_flush_iff q fun a b ha hb =>
      sortKey_eq_of_standsLast a b (standsLast_of_unplaced ha) (standsLast_of_unplaced hb)

/-! ## A diagnostic at the largest position -/

/-- A warning without a place is reported, and then an error at the largest position. -/
def lastPositionQueue : DiagnosticQueue :=
  let warning := Diagnostic.ofMessage .warning .w2001 "unplaced"
  let error := (Diagnostic.ofMessage .error .e2008 "placed").withPrimary ⟨0xFFFFFFFF, 0xFFFFFFFF⟩ ""
  (((empty .standard).add warning).2.add error).2

/-- The warning is shown first, although the error has a place. -/
theorem flush_lastPositionQueue :
    lastPositionQueue.flush.1 = lastPositionQueue.diagnostics ∧
    lastPositionQueue.diagnostics.map Diagnostic.start? = [none, some lastPosition] ∧
    ¬ InSourceOrder unplaced lastPositionQueue.diagnostics lastPositionQueue.flush.1 := by
  have hflush : lastPositionQueue.flush.1 = lastPositionQueue.diagnostics :=
    List.mergeSort_of_pairwise (by decide +kernel)
  refine ⟨hflush, by decide +kernel, fun h => ?_⟩
  have hparts := h.parts
  rw [hflush] at hparts
  revert hparts
  decide +kernel

end DiagnosticQueue
end SemanticCore
