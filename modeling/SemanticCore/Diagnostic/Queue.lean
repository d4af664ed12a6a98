import SemanticCore.Diagnostic.Basic
import SemanticCore.Error.Misuse

/-!
# The diagnostic queue

Diagnostics are collected in a queue until they are shown.  The queue drops what need not be
shown: errors beyond a limit, and a diagnostic that repeats the one before it.  A failed trial
takes back what it reported by cutting the queue to its earlier length, and `flush` hands over the
diagnostics in the order of the source.

The queue counts its errors and warnings as it goes; `truncate` corrects the counts.
-/

set_option autoImplicit false
namespace SemanticCore

/-- What a queue drops. -/
structure QueueConfig where
  /-- The number of errors that are kept, where zero means all. -/
  errorLimit : Nat
  /-- Drop a diagnostic that is equal to the one just before it. -/
  deduplicate : Bool
deriving DecidableEq

namespace QueueConfig

/-- Ten errors are kept, and repetitions are dropped. -/
def standard : QueueConfig := ⟨10, true⟩

/-- Everything is kept. -/
def unlimited : QueueConfig := ⟨0, false⟩

instance : Inhabited QueueConfig := ⟨standard⟩

end QueueConfig

/-- Diagnostics in the order in which they were reported. -/
structure DiagnosticQueue where
  config : QueueConfig
  diagnostics : List Diagnostic
  errorCount : Nat
  warningCount : Nat
deriving DecidableEq

namespace DiagnosticQueue

/-- The queue without diagnostics. -/
def empty (config : QueueConfig) : DiagnosticQueue :=
  ⟨config, [], 0, 0⟩

instance : Inhabited DiagnosticQueue := ⟨empty default⟩

variable (q : DiagnosticQueue)

/-- The number of diagnostics of any severity. -/
def size : Nat :=
  q.diagnostics.length

/-- No further error is kept. -/
def limitReached : Bool :=
  0 < q.config.errorLimit && q.config.errorLimit ≤ q.errorCount

/-- Some error is queued. -/
def hasErrors : Bool :=
  0 < q.errorCount

/-- The diagnostic is one that the queue drops. -/
def drops (d : Diagnostic) : Bool :=
  (d.isError && q.limitReached) ||
    (q.config.deduplicate && q.diagnostics.getLast? = some d)

/-- Report a diagnostic.  The answer is whether it was kept. -/
def add (d : Diagnostic) : Bool × DiagnosticQueue :=
  if q.drops d then
    (false, q)
  else
    (true, { q with
      diagnostics := q.diagnostics ++ [d]
      errorCount := q.errorCount + d.isError.toNat
      warningCount := q.warningCount + d.isWarning.toNat })

/-- Report an error.  The caller may rely on an error having been reported, also when the queue
drops it, since the queue drops an error only after another one. -/
def report (d : Diagnostic) : Except Misuse DiagnosticQueue :=
  if d.isError then .ok (q.add d).2 else .error .notAnError

/-- Keep only the first `n` diagnostics. -/
def truncate (n : Nat) : DiagnosticQueue :=
  let dropped := q.diagnostics.drop n
  { q with
    diagnostics := q.diagnostics.take n
    errorCount := q.errorCount - dropped.countP (·.isError)
    warningCount := q.warningCount - dropped.countP (·.isWarning) }

/-- Where a diagnostic stands in the order of the source.  A diagnostic without a place counts as
standing at the largest position. -/
def sortKey (d : Diagnostic) : UInt32 :=
  match d.primarySpan? with
  | some span => span.start
  | none => 0xFFFFFFFF

/-- The diagnostics in the order of the source, and the queue without them.  Diagnostics at equal
positions stay in the order in which they were reported. -/
def flush : List Diagnostic × DiagnosticQueue :=
  (q.diagnostics.mergeSort fun a b => sortKey a ≤ sortKey b,
    { q with diagnostics := [], errorCount := 0, warningCount := 0 })

end DiagnosticQueue

/-- What is said to a caller who reports an error, as evidence that one was reported. -/
def reportedText : String :=
  "error(s) emitted"

end SemanticCore
