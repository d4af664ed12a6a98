import SemanticCore.Diagnostic.Code
import SemanticCore.Span

/-!
# Diagnostics

A diagnostic says what is wrong (a code and a message), how bad it is, where (labels, of which the
primary ones mark the place of the problem itself), and what else there is to know or to try.
-/

set_option autoImplicit false
namespace SemanticCore

/-- How bad a diagnostic is. -/
inductive Severity where
  | error
  | warning
  | note
deriving DecidableEq, Inhabited

/-- The word for a severity. -/
def Severity.text : Severity → String
  | error => "error"
  | warning => "warning"
  | note => "note"

/-- A remark on a place in the source. -/
structure Label where
  span : Span
  message : String
  /-- The label marks the place of the problem itself. -/
  isPrimary : Bool
deriving DecidableEq, Inhabited

/-- A report on the program being analysed. -/
structure Diagnostic where
  code : DiagnosticCode
  severity : Severity
  message : String
  labels : List Label
  notes : List String
  suggestions : List String
deriving DecidableEq, Inhabited

namespace Diagnostic

/-- A diagnostic with a message and nothing else. -/
def ofMessage (severity : Severity) (code : DiagnosticCode) (message : String) : Diagnostic :=
  { code, severity, message, labels := [], notes := [], suggestions := [] }

/-- Add a label that marks the place of the problem. -/
def withPrimary (d : Diagnostic) (span : Span) (message : String) : Diagnostic :=
  { d with labels := d.labels ++ [⟨span, message, true⟩] }

/-- Add a note. -/
def withNote (d : Diagnostic) (note : String) : Diagnostic :=
  { d with notes := d.notes ++ [note] }

/-- Add a suggestion. -/
def withSuggestion (d : Diagnostic) (suggestion : String) : Diagnostic :=
  { d with suggestions := d.suggestions ++ [suggestion] }

/-- The place of the problem: the span of the first primary label. -/
def primarySpan? (d : Diagnostic) : Option Span :=
  (d.labels.find? (·.isPrimary)).map (·.span)

/-- The diagnostic is an error. -/
def isError (d : Diagnostic) : Bool :=
  d.severity = .error

/-- The diagnostic is a warning. -/
def isWarning (d : Diagnostic) : Bool :=
  d.severity = .warning

/-- A diagnostic is shown with its severity, code and message in one line, followed by a line for
each label, note and suggestion. -/
def text (d : Diagnostic) : String :=
  let labels := d.labels.map fun l =>
    "\n  " ++ (if l.isPrimary then "-->" else "   ") ++ " " ++ l.span.text ++ ": " ++ l.message
  let notes := d.notes.map ("\n  = note: " ++ ·)
  let suggestions := d.suggestions.map ("\n  = help: " ++ ·)
  d.severity.text ++ " [" ++ d.code.text ++ "]: " ++ d.message ++ String.join labels ++
    String.join notes ++ String.join suggestions

/-- The report that analysis stops after the given number of errors. -/
def tooManyErrors (limit : Nat) (span : Span) : Diagnostic :=
  (ofMessage .error .e9002 ("aborting due to " ++ limit.repr ++ " previous errors")).withPrimary
    span "error limit reached here"

end Diagnostic
end SemanticCore
