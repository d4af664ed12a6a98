import SemanticCore.Proofs.Action.Value

/-!
# Why an initialization is refused

Each way of initializing an object tries its rules one after another and takes the first that fits,
and the rule tells whether the initialization succeeds and which error it ends with.  What the error
names is of no importance for the rule, so errors are compared by their variants
(`SemanticError.variant`), and `Attempt.refusal?` is the variant that an attempt ends with.

For each way of initializing there is one lemma that writes its refusals as a chain of tests of the
target and the source: `Build.refusal?_initZero` and so on.  The chains show which rules are the
same.

* `InitRequest.refusedAsSequence_run` — the two rules for sequences are used for sequences only, and
  for each of them unless the choice of the rule is put off.
* `Build.initCopy_eq_initDirect_iff` — **initialization from one expression, with `=` or in
  parentheses, is the same except for sequences.**
-/

set_option autoImplicit false
namespace SemanticCore

open SemanticCore.Graph

/-! ## Refusals -/

/-- The variant of an error: which feature is missing, or which fault or broken rule it is.  Faults
and rules are told apart by their number, so the nodes that they name do not matter. -/
inductive ErrorVariant where
  | unsupported (feature : Feature)
  | fault (index : Nat)
  | type (index : Nat)
deriving DecidableEq

/-- The variant of an error. -/
def SemanticError.variant : SemanticError → ErrorVariant
  | unsupported feature => .unsupported feature
  | fault cause => .fault cause.ctorIdx
  | type cause => .type cause.ctorIdx

/-- The error is that of a rule for sequences. -/
def ErrorVariant.ofSequence (v : ErrorVariant) : Bool :=
  v = .unsupported .stringInitialization ||
    v = (SemanticError.type (.invalidArrayInitialization default)).variant

namespace Attempt

variable {α : Type} {g : Graph}

/-- The variant of the error that the attempt fails with, and nothing if it succeeds. -/
def refusal? (x : Attempt SemanticError α) (g : Graph) : Option ErrorVariant :=
  match (x g).1 with
  | .ok _ => none
  | .error e => some e.variant

theorem isOk_iff_refusal? (x : Attempt SemanticError α) (g : Graph) :
    (x g).1.isOk = true ↔ x.refusal? g = none := by
  rw [refusal?]
  cases (x g).1 with
  | ok a => exact iff_of_true rfl rfl
  | error e => exact iff_of_false Bool.false_ne_true (Option.some_ne_none _)

/-- The attempt is refused because the object is a sequence. -/
def refusedAsSequence (x : Attempt SemanticError α) (g : Graph) : Bool :=
  (x.refusal? g).any ErrorVariant.ofSequence

theorem refusal?_get_bind (f : Graph → Attempt SemanticError α) :
    refusal? ((get : Attempt SemanticError Graph) >>= f) g = refusal? (f g) g :=
  rfl

/-- An addition that follows an attempt is not refused. -/
theorem refusal?_bind_lift (x : Attempt SemanticError α) {β : Type} (y : α → Build β) :
    refusal? (x >>= fun a => liftM (y a)) g = x.refusal? g := by
  rw [refusal?, refusal?]
  rcases h : x g with ⟨e | a, g'⟩
  · rw [bind_of_error h]
  · rw [bind_of_ok h]
    rfl

end Attempt

namespace Build

variable (g : Graph) (t : TypeHandle) (e : ExprHandle)

/-! ## The rules of each way of initializing -/

/-- The first rule, for functions, is not needed: what is no reference, no class and no scalar is
refused in the same way. -/
theorem refusal?_initZero : (initZero t).refusal? g =
    if g.isReference t then none
    else if g.isClass t then some (.unsupported .classInitialization)
    else if (g.type (g.unqualified t)).isScalar then none
    else some (SemanticError.type (.cannotZeroInitialize t)).variant := by
  rw [initZero, Attempt.refusal?_get_bind]
  split
  · next hfun =>
    cases hf : g.type t with
    | function ps r =>
      have hbase : g.unqualified t = t := unqualified_of_plain (by rw [hf]; rfl)
      rw [isReference, isClass, hbase, hf]
      rfl
    | _ => rw [hf] at hfun; cases hfun
  · rw [Attempt.refusal?_get_bind]
    split
    · rfl
    · rw [Attempt.refusal?_get_bind]
      split
      · rfl
      · rw [Attempt.refusal?_get_bind, Attempt.refusal?_get_bind]
        split
        · rw [Attempt.refusal?_get_bind]
          split <;> rfl
        · rfl

theorem refusal?_initDefault : (initDefault t).refusal? g =
    if g.isReference t then some (SemanticError.type (.referenceDefaultInit t)).variant
    else none := by
  rw [initDefault, Attempt.refusal?_get_bind]
  split <;> rfl

theorem refusal?_initValue : (initValue t).refusal? g =
    if g.isReference t then some (SemanticError.type (.referenceValueInit t)).variant
    else (initZero t).refusal? g := by
  rw [initValue, Attempt.refusal?_get_bind]
  split
  · rfl
  · next hr =>
    rw [Attempt.refusal?_get_bind]
    split
    · next hc => rw [refusal?_initZero, if_neg hr, if_pos hc]; rfl
    · rfl

theorem refusal?_initReference : (initReference t e).refusal? g =
    if g.isReference t then
      if g.isReference (g.exprType e) &&
          g.referenceCompatible (g.nonReference t) (g.nonReference (g.exprType e)) then none
      else some (SemanticError.type (.referenceBinding t e)).variant
    else some (SemanticError.fault (.notAReference t)).variant := by
  rw [initReference, Attempt.refusal?_get_bind]
  cases hr : g.isReference t with
  | false => rfl
  | true =>
    rw [if_neg (show ¬ (!true) = true from Bool.false_ne_true), if_pos rfl]
    simp only [Attempt.refusal?_get_bind]
    split <;> rfl

theorem refusal?_convertAndCopy : (convertAndCopy t e).refusal? g =
    if g.isDependent (g.nonReference (g.exprType e)) then none
    else if g.isClass (g.nonReference (g.exprType e)) then
      some (.unsupported .userDefinedConversion)
    else (convert e t).refusal? g := by
  simp only [convertAndCopy, Attempt.refusal?_get_bind]
  split
  · rfl
  · rw [Attempt.refusal?_get_bind]
    split
    · rfl
    · exact Attempt.refusal?_bind_lift _ _

theorem refusal?_initCopy : (initCopy t e).refusal? g =
    if g.isReference t then (initReference t e).refusal? g
    else if g.isDependent t then none
    else if (g.type t).isSequence then some (.unsupported .stringInitialization)
    else if g.isClass t then some (.unsupported .constructorSearch)
    else (convertAndCopy t e).refusal? g := by
  rw [initCopy, Attempt.refusal?_get_bind]
  split
  · rfl
  · rw [Attempt.refusal?_get_bind]
    split
    · rfl
    · rw [Attempt.refusal?_get_bind]
      split
      · rfl
      · rw [Attempt.refusal?_get_bind]
        split <;> rfl

variable {g t} in
/-- **Direct initialization from expressions has the rules of a copy of the first one**, once
sequences are left out; but several expressions are looked at only for an object of a class. -/
theorem initDirect_cons (h : (g.type t).isSequence = false) (es : List ExprHandle) :
    initDirect t (e :: es) g =
      if !es.isEmpty && !g.isClass t then (.error (.type (.scalarFromMultipleArguments t)), g)
      else initCopy t e g := by
  have hseq : ¬ (g.type t).isSequence = true := h ▸ Bool.false_ne_true
  rw [initDirect, Attempt.get_bind, if_neg hseq]
  dsimp only
  rw [Attempt.get_bind]
  split
  · rfl
  · rw [initCopy, Attempt.get_bind, Attempt.get_bind]
    split
    · rfl
    · rw [Attempt.get_bind, Attempt.get_bind]
      split
      · rfl
      · rw [Attempt.get_bind, Attempt.get_bind, if_neg hseq, Attempt.get_bind]

theorem refusal?_initDirect_cons (es : List ExprHandle) : (initDirect t (e :: es)).refusal? g =
    if (g.type t).isSequence then some (SemanticError.type (.invalidArrayInitialization t)).variant
    else if !es.isEmpty && !g.isClass t then
      some (SemanticError.type (.scalarFromMultipleArguments t)).variant
    else (initCopy t e).refusal? g := by
  cases hseq : (g.type t).isSequence with
  | true => rw [initDirect, Attempt.refusal?_get_bind, if_pos hseq]; rfl
  | false =>
    rw [Attempt.refusal?, initDirect_cons e hseq, if_neg Bool.false_ne_true]
    cases !es.isEmpty && !g.isClass t <;> rfl

theorem refusal?_initDirect_nil : (initDirect t []).refusal? g =
    if (g.type t).isSequence then some (SemanticError.type (.invalidArrayInitialization t)).variant
    else (initValue t).refusal? g := by
  rw [initDirect, Attempt.refusal?_get_bind]
  split <;> rfl

end Build

namespace Graph

variable {g : Graph} {t : TypeHandle} {e : ExprHandle}

/-- A conversion is refused if the value has another type and no step leads to the target. -/
theorem WellFormed.refusal?_convert (hg : g.WellFormed) (he : g.contains e = true)
    (ht : g.contains t = true) : (Build.convert e t).refusal? g =
      if g.typeByValue e = g.unqualified t ∨
          (g.conversionKind? (g.typeByValue e) (g.unqualified t)).isSome = true then
        none
      else
        some (SemanticError.type (.noConversion (g.typeByValue e) (g.unqualified t))).variant := by
  rw [Attempt.refusal?, hg.convert_eq he ht]
  by_cases heq : g.typeByValue e = g.unqualified t
  · rw [if_pos heq, if_pos (.inl heq)]
  · rw [if_neg heq]
    cases g.conversionKind? (g.typeByValue e) (g.unqualified t) with
    | some kind => exact (if_pos (.inr rfl)).symm
    | none => exact (if_neg (not_or.2 ⟨heq, Bool.false_ne_true⟩)).symm

/-! ## The rules for sequences -/

theorem type_of_isSequence (h : (g.type t).isSequence = true) : ∃ a, g.type t = .sequence a := by
  cases hf : g.type t with
  | sequence a => exact ⟨a, rfl⟩
  | _ => rw [hf] at h; cases h

theorem isReference_of_isSequence (h : (g.type t).isSequence = true) : g.isReference t = false := by
  obtain ⟨a, hf⟩ := type_of_isSequence h
  rw [isReference, hf]
  rfl

theorem not_refusedAsSequence_initZero (g : Graph) (t : TypeHandle) :
    (Build.initZero t).refusedAsSequence g = false := by
  rw [Attempt.refusedAsSequence, Build.refusal?_initZero]
  split
  · rfl
  · split
    · rfl
    · split <;> rfl

theorem not_refusedAsSequence_initDefault (g : Graph) (t : TypeHandle) :
    (Build.initDefault t).refusedAsSequence g = false := by
  rw [Attempt.refusedAsSequence, Build.refusal?_initDefault]
  split <;> rfl

theorem not_refusedAsSequence_initValue (g : Graph) (t : TypeHandle) :
    (Build.initValue t).refusedAsSequence g = false := by
  rw [Attempt.refusedAsSequence, Build.refusal?_initValue]
  split
  · rfl
  · exact not_refusedAsSequence_initZero g t

theorem not_refusedAsSequence_initReference (g : Graph) (t : TypeHandle) (e : ExprHandle) :
    (Build.initReference t e).refusedAsSequence g = false := by
  rw [Attempt.refusedAsSequence, Build.refusal?_initReference]
  split
  · split <;> rfl
  · rfl

theorem WellFormed.not_refusedAsSequence_convertAndCopy (hg : g.WellFormed)
    (ht : g.contains t = true) (he : g.contains e = true) :
    (Build.convertAndCopy t e).refusedAsSequence g = false := by
  rw [Attempt.refusedAsSequence, Build.refusal?_convertAndCopy]
  split
  · rfl
  · split
    · rfl
    · rw [hg.refusal?_convert he ht]
      split <;> rfl

/-- A copy is refused because the object is a sequence, unless its type is dependent. -/
theorem WellFormed.refusedAsSequence_initCopy (hg : g.WellFormed) (ht : g.contains t = true)
    (he : g.contains e = true) : (Build.initCopy t e).refusedAsSequence g =
      (!g.isDependent t && (g.type t).isSequence) := by
  rw [Attempt.refusedAsSequence, Build.refusal?_initCopy]
  cases hr : g.isReference t with
  | true =>
    have hseq : (g.type t).isSequence = false :=
      eq_false_of_ne_true fun h => absurd hr (isReference_of_isSequence h ▸ Bool.false_ne_true)
    rw [hseq, Bool.and_false]
    exact not_refusedAsSequence_initReference g t e
  | false =>
    cases hd : g.isDependent t with
    | true => rfl
    | false =>
      cases hseq : (g.type t).isSequence with
      | true => rfl
      | false =>
        cases g.isClass t with
        | true => rfl
        | false => exact hg.not_refusedAsSequence_convertAndCopy ht he

/-- Direct initialization is refused because the object is a sequence, whatever the arguments. -/
theorem WellFormed.refusedAsSequence_initDirect (hg : g.WellFormed) (ht : g.contains t = true)
    {es : List ExprHandle} (hes : ∀ e ∈ es, g.contains e = true) :
    (Build.initDirect t es).refusedAsSequence g = (g.type t).isSequence := by
  rw [Attempt.refusedAsSequence]
  cases hseq : (g.type t).isSequence with
  | true =>
    cases es with
    | nil => rw [Build.refusal?_initDirect_nil, hseq]; rfl
    | cons e rest => rw [Build.refusal?_initDirect_cons, hseq]; rfl
  | false =>
    cases es with
    | nil =>
      rw [Build.refusal?_initDirect_nil, hseq, if_neg Bool.false_ne_true]
      exact not_refusedAsSequence_initValue g t
    | cons e rest =>
      have hcopy := hg.refusedAsSequence_initCopy ht (hes e List.mem_cons_self)
      rw [hseq, Bool.and_false] at hcopy
      rw [Build.refusal?_initDirect_cons, hseq, if_neg Bool.false_ne_true]
      split
      · rfl
      · exact hcopy

end Graph

namespace InitRequest

/-- The request is refused if the type is a sequence: direct initialization always is, and a copy
unless it is deferred. -/
def refusesSequence (g : Graph) (t : TypeHandle) : InitRequest → Bool
  | copy _ | written (.equal _) => !g.isDependent t
  | direct _ | written (.paren _) => true
  | _ => false

theorem refusedAsSequence_run {g : Graph} (hg : g.WellFormed) {t : TypeHandle}
    (ht : g.contains t = true) (r : InitRequest) (hr : ∀ e ∈ r.exprs, g.contains e = true) :
    (r.run t).refusedAsSequence g = (r.refusesSequence g t && (g.type t).isSequence) := by
  cases r with
  | zero => exact not_refusedAsSequence_initZero g t
  | default => exact not_refusedAsSequence_initDefault g t
  | value => exact not_refusedAsSequence_initValue g t
  | copy e => exact hg.refusedAsSequence_initCopy ht (hr e List.mem_cons_self)
  | direct es => exact hg.refusedAsSequence_initDirect ht hr
  | reference e => exact not_refusedAsSequence_initReference g t e
  | written w =>
    cases w with
    | equal e => exact hg.refusedAsSequence_initCopy ht (hr e List.mem_cons_self)
    | paren es => exact hg.refusedAsSequence_initDirect ht hr
    | brace es => rfl

end InitRequest

/-- **Initialization from one expression, with `=` or in parentheses, is the same except for
sequences.** -/
theorem Build.initCopy_eq_initDirect_iff (g : Graph) (t : TypeHandle) (e : ExprHandle) :
    initCopy t e g = initDirect t [e] g ↔ (g.type t).isSequence = false := by
  constructor
  · intro h
    refine eq_false_of_ne_true fun hseq => ?_
    have hrefusal : (initCopy t e).refusal? g = (initDirect t [e]).refusal? g := by
      rw [Attempt.refusal?, h, Attempt.refusal?]
    rw [refusal?_initCopy, refusal?_initDirect_cons, isReference_of_isSequence hseq, hseq,
      if_neg Bool.false_ne_true, if_pos rfl, if_pos rfl] at hrefusal
    split at hrefusal <;> cases hrefusal
  · intro hseq
    rw [initDirect_cons e hseq]
    -- a single expression is never too many
    exact (if_neg Bool.false_ne_true).symm

end SemanticCore
