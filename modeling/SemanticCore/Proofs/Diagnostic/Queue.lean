import Mathlib.Data.List.Chain
import SemanticCore.Diagnostic.Queue

/-!
# What a diagnostic queue keeps

A queue counts its errors and warnings while it drops what need not be shown, while the end of it is
cut away again, and while it is emptied.  Whoever reports an error is promised that some error is
queued from then on, also where the queue drops this very error.  The promise rests on the counts:
an error is dropped at a positive limit that the number of errors reached, or after an equal
diagnostic, which then is a queued error itself.

`DiagnosticQueue.Sound` is the invariant.  Every request keeps it, so it holds after every sequence
of requests to a queue that was empty at first.

* `DiagnosticQueue.add_cases` — a diagnostic is added at the end and counted, or nothing changes.
* `DiagnosticQueue.Sound.foldlM_discount` — cutting a queue takes back one diagnostic after the
  other, and no count goes below zero.
* `DiagnosticQueue.Sound.report` — some error is queued after an error was reported.
* `DiagnosticQueue.serves_sound` — all of this after any sequence of requests.
-/

set_option autoImplicit false
namespace SemanticCore

/-- What a client asks of a queue. -/
inductive QueueRequest where
  | add (d : Diagnostic)
  | report (d : Diagnostic)
  | truncate (n : Nat)
  | flush

namespace QueueRequest

/-- Only an error is reported as an error. -/
def Proper : QueueRequest → Prop
  | report d => d.isError = true
  | add _ | truncate _ | flush => True

/-- The queue after the request. -/
def serve (q : DiagnosticQueue) : QueueRequest → Except Misuse DiagnosticQueue
  | add d => .ok (q.add d).2
  | report d => q.report d
  | truncate n => .ok (q.truncate n)
  | flush => .ok q.flush.2

end QueueRequest

namespace DiagnosticQueue

/-- The queue after the requests, one after the other. -/
def serves (config : QueueConfig) (rs : List QueueRequest) : Except Misuse DiagnosticQueue :=
  rs.foldlM QueueRequest.serve (.empty config)

/-! ## Adding at the end and cutting the end away -/

/-- The queue with more diagnostics at the end, all of them counted. -/
def append (q : DiagnosticQueue) (ds : List Diagnostic) : DiagnosticQueue :=
  { q with
    diagnostics := q.diagnostics ++ ds
    errorCount := q.errorCount + ds.countP (·.isError)
    warningCount := q.warningCount + ds.countP (·.isWarning) }

variable {q q' : DiagnosticQueue} {ds : List Diagnostic} {d : Diagnostic}

theorem toNat_eq_ite (b : Bool) : b.toNat = if b then 1 else 0 := by
  cases b <;> rfl

theorem append_nil : q.append [] = q := by
  simp [append]

theorem append_append (es : List Diagnostic) :
    (q.append ds).append es = q.append (ds ++ es) := by
  simp [append, List.countP_append, Nat.add_assoc]

theorem add_of_drops (h : q.drops d = true) : q.add d = (false, q) := by
  rw [add, if_pos h]

theorem add_of_not_drops (h : q.drops d = false) : q.add d = (true, q.append [d]) := by
  simp [add, append, h, List.countP_cons, toNat_eq_ite]

/-- The answer says which of the two it was. -/
theorem add_cases (q : DiagnosticQueue) (d : Diagnostic) :
    q.add d = (true, q.append [d]) ∨ q.add d = (false, q) := by
  cases h : q.drops d
  · exact .inl (add_of_not_drops h)
  · exact .inr (add_of_drops h)

/-- Reporting a diagnostic adds it at the end, unless the queue drops it. -/
theorem add_eq_append (d : Diagnostic) : ∃ ds, (q.add d).2 = q.append ds := by
  obtain h | h := add_cases q d
  · exact ⟨[d], congrArg Prod.snd h⟩
  · exact ⟨[], (congrArg Prod.snd h).trans append_nil.symm⟩

theorem add_config (q : DiagnosticQueue) (d : Diagnostic) : (q.add d).2.config = q.config := by
  obtain h | h := add_cases q d
  · rw [h, append]
  · rw [h]

theorem add_iff_appended :
    (q.add d).1 = true ↔ (q.add d).2.diagnostics = q.diagnostics ++ [d] := by
  obtain h | h := add_cases q d <;> simp [h, append]

theorem add_unchanged (h : (q.add d).1 = false) : (q.add d).2 = q := by
  obtain h' | h' := add_cases q d
  · rw [h'] at h; cases h
  · rw [h']

/-- Cutting what was added keeps the first of it, and the counts agree with what is left. -/
theorem truncate_append {n : Nat} (hn : q.size ≤ n) :
    (q.append ds).truncate n = q.append (ds.take (n - q.size)) := by
  have hsplit := List.take_append_drop (n - q.size) ds
  have herrors := congrArg (List.countP (·.isError)) hsplit
  have hwarnings := congrArg (List.countP (·.isWarning)) hsplit
  rw [List.countP_append] at herrors hwarnings
  have htake : (q.diagnostics ++ ds).take n = q.diagnostics ++ ds.take (n - q.size) := by
    rw [List.take_append, List.take_of_length_le hn, size]
  have hdrop : (q.diagnostics ++ ds).drop n = ds.drop (n - q.size) := by
    rw [List.drop_append, List.drop_eq_nil_of_le hn, List.nil_append, size]
  simp only [truncate, append, htake, hdrop, ← herrors, ← hwarnings]
  congr 1 <;> omega

/-! ## The invariant -/

/-- The counts agree with what is queued, and what is queued obeys the configuration. -/
structure Sound (q : DiagnosticQueue) : Prop where
  errors : q.errorCount = q.diagnostics.countP (·.isError)
  warnings : q.warningCount = q.diagnostics.countP (·.isWarning)
  limit : 0 < q.config.errorLimit → q.errorCount ≤ q.config.errorLimit
  /-- No diagnostic stands just after one that is equal to it. -/
  distinct : q.config.deduplicate = true → q.diagnostics.IsChain (· ≠ ·)

/-- The counts of errors and of warnings after one diagnostic is taken back, if the count that it
goes down from is not zero. -/
def discount? (counts : Nat × Nat) (d : Diagnostic) : Option (Nat × Nat) :=
  match d.severity, counts with
  | .error, (errors + 1, warnings) => some (errors, warnings)
  | .warning, (errors, warnings + 1) => some (errors, warnings)
  | .note, counts => some counts
  | _, _ => none

theorem foldlM_discount (errors warnings : Nat) (ds : List Diagnostic) :
    ds.foldlM discount?
        (errors + ds.countP (·.isError), warnings + ds.countP (·.isWarning)) =
      some (errors, warnings) := by
  induction ds with
  | nil => rfl
  | cons d ds ih =>
    rw [List.foldlM_cons]
    cases h : d.severity <;>
      simpa [discount?, h, Diagnostic.isError, Diagnostic.isWarning, ← Nat.add_assoc] using ih

theorem not_drops (h : q.drops d = false) :
    (d.isError = true → q.limitReached = false) ∧
      (q.config.deduplicate = true → q.diagnostics.getLast? ≠ some d) := by
  simpa [drops] using h

theorem lt_of_not_limitReached (h : q.limitReached = false) (hl : 0 < q.config.errorLimit) :
    q.errorCount < q.config.errorLimit := by
  simpa [limitReached, hl] using h

namespace Sound

theorem empty (config : QueueConfig) : (DiagnosticQueue.empty config).Sound :=
  ⟨rfl, rfl, fun _ => Nat.zero_le _, fun _ => .nil⟩

theorem hasErrors_iff (h : q.Sound) :
    q.hasErrors = true ↔ ∃ d ∈ q.diagnostics, d.isError = true := by
  rw [hasErrors, decide_eq_true_iff, h.errors, List.countP_pos_iff]

/-- A diagnostic that is not dropped leaves room below the limit and differs from the last one. -/
theorem append (h : q.Sound) (hd : q.drops d = false) : (q.append [d]).Sound where
  errors := by rw [DiagnosticQueue.append, h.errors, List.countP_append]
  warnings := by rw [DiagnosticQueue.append, h.warnings, List.countP_append]
  limit hl := by
    change q.errorCount + [d].countP (·.isError) ≤ q.config.errorLimit
    cases he : d.isError
    · simpa [he] using h.limit hl
    · simpa [he, Nat.succ_le_iff] using lt_of_not_limitReached ((not_drops hd).1 he) hl
  distinct hdup := by
    refine List.isChain_append.mpr ⟨h.distinct hdup, .singleton _, fun x hx y hy hxy => ?_⟩
    rw [List.head?_cons, Option.mem_some_iff] at hy
    exact (not_drops hd).2 hdup (by rw [hx, hxy, hy])

theorem add (h : q.Sound) (d : Diagnostic) : (q.add d).2.Sound := by
  cases hd : q.drops d
  · rw [add_of_not_drops hd]; exact h.append hd
  · rwa [add_of_drops hd]

/-- What is dropped is counted apart from what stays, so the differences are the counts of what
stays. -/
theorem truncate_counts (h : q.Sound) (n : Nat) :
    (q.truncate n).errorCount = (q.diagnostics.take n).countP (·.isError) ∧
      (q.truncate n).warningCount = (q.diagnostics.take n).countP (·.isWarning) := by
  have hsplit := List.take_append_drop n q.diagnostics
  have herrors := h.errors
  have hwarnings := h.warnings
  rw [← hsplit, List.countP_append] at herrors hwarnings
  simp only [DiagnosticQueue.truncate]
  omega

theorem truncate (h : q.Sound) (n : Nat) : (q.truncate n).Sound where
  errors := (h.truncate_counts n).1
  warnings := (h.truncate_counts n).2
  limit hl := (Nat.sub_le _ _).trans (h.limit hl)
  distinct hdup := (h.distinct hdup).take n

/-- **Cutting a queue takes back one diagnostic after the other, and no count goes below zero.** -/
theorem foldlM_discount (h : q.Sound) (n : Nat) :
    (q.diagnostics.drop n).foldlM discount? (q.errorCount, q.warningCount) =
      some ((q.truncate n).errorCount, (q.truncate n).warningCount) := by
  have hsplit := List.take_append_drop n q.diagnostics
  rw [(h.truncate_counts n).1, (h.truncate_counts n).2, h.errors, h.warnings]
  conv in q.diagnostics.countP (·.isError) => rw [← hsplit, List.countP_append]
  conv in q.diagnostics.countP (·.isWarning) => rw [← hsplit, List.countP_append]
  exact DiagnosticQueue.foldlM_discount _ _ _

theorem flush (q : DiagnosticQueue) : q.flush.2.Sound :=
  ⟨rfl, rfl, fun _ => Nat.zero_le _, fun _ => .nil⟩

/-- Where the queue drops an error, another one is queued: the limit is positive and was reached,
or the last diagnostic is equal to the dropped one. -/
theorem hasErrors_of_drops (h : q.Sound) (he : d.isError = true) (hd : q.drops d = true) :
    q.hasErrors = true := by
  rw [drops, he, Bool.true_and, Bool.or_eq_true, Bool.and_eq_true, decide_eq_true_iff] at hd
  obtain hlimit | ⟨-, hlast⟩ := hd
  · simp only [limitReached, Bool.and_eq_true, decide_eq_true_iff] at hlimit
    exact decide_eq_true (hlimit.1.trans_le hlimit.2)
  · exact h.hasErrors_iff.mpr ⟨d, List.mem_of_getLast? hlast, he⟩

/-- **Some error is queued after an error was reported**, also where the queue dropped it. -/
theorem report (h : q.Sound) (he : d.isError = true) :
    q.report d = .ok (q.add d).2 ∧ (q.add d).2.hasErrors = true := by
  refine ⟨by rw [DiagnosticQueue.report, if_pos he], ?_⟩
  cases hd : q.drops d
  · rw [add_of_not_drops hd]
    simp [DiagnosticQueue.append, hasErrors, he]
  · rw [add_of_drops hd]
    exact h.hasErrors_of_drops he hd

/-! ## After any sequence of requests -/

/-- What one request keeps. -/
theorem serve (h : q.Sound) {r : QueueRequest} (hr : r.Proper) :
    ∃ q', r.serve q = .ok q' ∧ q'.config = q.config ∧ q'.Sound := by
  cases r with
  | add d => exact ⟨_, rfl, add_config q d, h.add d⟩
  | report d => exact ⟨_, (h.report hr).1, add_config q d, h.add d⟩
  | truncate n => exact ⟨_, rfl, rfl, h.truncate n⟩
  | flush => exact ⟨_, rfl, rfl, flush q⟩

theorem serves (h : q.Sound) {rs : List QueueRequest} (hrs : ∀ r ∈ rs, r.Proper) :
    ∃ q', rs.foldlM QueueRequest.serve q = .ok q' ∧ q'.config = q.config ∧ q'.Sound := by
  induction rs generalizing q with
  | nil => exact ⟨q, rfl, rfl, h⟩
  | cons r rs ih =>
    obtain ⟨hr, hrs⟩ := List.forall_mem_cons.mp hrs
    obtain ⟨q', hq', hc, hs⟩ := h.serve hr
    obtain ⟨q'', hq'', hc', hs'⟩ := ih hs hrs
    exact ⟨q'', by rw [List.foldlM_cons, hq']; exact hq'', hc'.trans hc, hs'⟩

end Sound

/-- **Whatever is asked of a queue, its counts are those of what it holds**, what it holds obeys the
configuration, a cut never takes a count below zero, the answer of `add` says whether the diagnostic
is in the queue now, and an error is queued right after one was reported. -/
theorem serves_sound (config : QueueConfig) {rs : List QueueRequest} (hrs : ∀ r ∈ rs, r.Proper) :
    ∃ q, serves config rs = .ok q ∧ q.config = config ∧ q.Sound ∧
      (∀ n, (q.diagnostics.drop n).foldlM discount? (q.errorCount, q.warningCount) =
        some ((q.truncate n).errorCount, (q.truncate n).warningCount)) ∧
      (∀ d, ((q.add d).1 = true ↔ (q.add d).2.diagnostics = q.diagnostics ++ [d]) ∧
        ((q.add d).1 = false → (q.add d).2 = q)) ∧
      ∀ d, d.isError = true → ∃ q', q.report d = .ok q' ∧ q'.hasErrors = true := by
  obtain ⟨q, hq, hc, hs⟩ := (Sound.empty config).serves hrs
  exact ⟨q, hq, hc, hs, hs.foldlM_discount, fun _ => ⟨add_iff_appended, add_unchanged⟩,
    fun d hd => ⟨_, hs.report hd⟩⟩

/-- Requests to a queue that keeps one error: the second warning repeats the first, the second error
is beyond the limit, and the third one has room again after the cut. -/
def limitedRequests : List QueueRequest :=
  [.add (.ofMessage .warning .w2001 "unused"), .add (.ofMessage .warning .w2001 "unused"),
    .report (.ofMessage .error .e2001 "first"), .report (.ofMessage .error .e2001 "second"),
    .truncate 1, .report (.ofMessage .error .e2001 "third")]

theorem serves_sound_limited :
    (∀ r ∈ limitedRequests, r.Proper) ∧
      ∃ q, serves ⟨1, true⟩ limitedRequests = .ok q ∧ q.config = ⟨1, true⟩ ∧ q.Sound ∧
        (∀ n, (q.diagnostics.drop n).foldlM discount? (q.errorCount, q.warningCount) =
          some ((q.truncate n).errorCount, (q.truncate n).warningCount)) ∧
        (∀ d, ((q.add d).1 = true ↔ (q.add d).2.diagnostics = q.diagnostics ++ [d]) ∧
          ((q.add d).1 = false → (q.add d).2 = q)) ∧
        ∀ d, d.isError = true → ∃ q', q.report d = .ok q' ∧ q'.hasErrors = true := by
  have hproper : ∀ r ∈ limitedRequests, r.Proper := by
    simp [limitedRequests, QueueRequest.Proper, Diagnostic.ofMessage, Diagnostic.isError]
  exact ⟨hproper, serves_sound ⟨1, true⟩ hproper⟩

example : serves ⟨1, true⟩ limitedRequests = .ok
    ⟨⟨1, true⟩, [.ofMessage .warning .w2001 "unused", .ofMessage .error .e2001 "third"], 1, 1⟩ := by
  decide +kernel

end DiagnosticQueue
end SemanticCore
