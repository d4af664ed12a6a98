import SemanticCore.Constraint.Admission
import SemanticCore.Constraint.Subsumption
import SemanticCore.Template.Deduction
import SemanticCore.Template.Specialization

/-!
# Oracles

Resolving a call asks four questions about templates: which arguments a call deduces, what the
specialization to them is, whether one constraint subsumes another, and whether constraints admit
an expression.  An oracle answers them.

`Oracle.structural` answers by the structure of types and constraints.  `Oracle.scripted` answers
some questions from a script and leaves the others to the structure; it serves to try out what a
client of the oracle does with an answer.
-/

set_option autoImplicit false
namespace SemanticCore

/-- Answers to the questions that call resolution asks about templates. -/
structure Oracle where
  /-- How the oracle is shown. -/
  label : String
  /-- The template arguments for a call. -/
  deduce (tparams params : List DeclHandle) (args : List ExprHandle) :
    Attempt DeductionError Substitution
  /-- The specialization of a function template. -/
  specialize (template : DeclHandle) (s : Substitution) : Attempt SpecializationError DeclHandle
  /-- Whether the first constraint subsumes the second. -/
  subsumes (lhs rhs : ExprHandle) : Build Bool
  /-- The expression by which the constraints admit an expression. -/
  admission? (constraints e : ExprHandle) : Build (Option ExprHandle)

/-- Prepared answers; a question without one is left to the structure. -/
structure Script where
  /-- Deduction succeeds without any argument. -/
  deduceEmpty : Bool
  specialize : Option DeclHandle
  subsumes : Option Bool
  admission : Option (Option ExprHandle)

/-- The script without answers. -/
def Script.empty : Script := ⟨false, none, none, none⟩

namespace Oracle

/-- The oracle that answers by structure. -/
def structural : Oracle where
  label := "StructuralOracle"
  deduce := Build.deduce
  specialize := Build.specialize
  subsumes := Build.subsumes
  admission? := Build.admission?

instance : Inhabited Oracle := ⟨structural⟩

/-- The oracle that answers from a script first. -/
def scripted (script : Script) : Oracle where
  label := "Scripted"
  deduce tparams params args :=
    if script.deduceEmpty then pure (.ofParams tparams) else Build.deduce tparams params args
  specialize template s :=
    match script.specialize with
    | some spec => pure spec
    | none => Build.specialize template s
  subsumes lhs rhs :=
    match script.subsumes with
    | some answer => pure answer
    | none => Build.subsumes lhs rhs
  admission? constraints e :=
    match script.admission with
    | some answer => pure answer
    | none => Build.admission? constraints e

end Oracle
end SemanticCore
