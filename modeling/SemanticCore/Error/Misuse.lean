/-!
# Misuse

Some operations have a precondition on their caller.  A call that breaks one is refused before it
changes anything, and the refusal says which precondition it was.
-/

set_option autoImplicit false
namespace SemanticCore

/-- A broken precondition. -/
inductive Misuse where
  /-- Marks are restored at another depth of scopes than they were taken at. -/
  | scopeDepth
  /-- Marks are restored at another depth of templates than they were taken at. -/
  | templateDepth
  /-- A diagnostic that is no error is reported as one. -/
  | notAnError
  /-- The bindings of the innermost scope are asked for after they have been cut off: marks were
  restored that come from another frame at the same depth. -/
  | staleScope
deriving DecidableEq, Inhabited

end SemanticCore
