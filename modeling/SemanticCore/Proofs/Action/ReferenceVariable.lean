import SemanticCore.Proofs.Action.Refusal
import SemanticCore.Proofs.Template.Success

/-!
# Reference variables as initializers

The name of a variable is an expression of reference type: it names an object of the type that the
variable was declared with.  If that type is a reference itself, the "object" that is named is a
reference, and nothing goes on from there to the object that it refers to.  So the name of `int& r`
is something else than the name of the `int x` that `r` may refer to.

Whether a copy initializes an object depends on the types only.  `Graph.Source` is what an
initializer sees of an expression, and `Graph.TakesCopy` says from which sources an object or a
reference can be initialized (`Graph.WellFormed.isOk_initCopy`).  For the name of a variable of type
`T&` little is left of it: a reference to `T&` can be bound, and a copy can be put off until the
templates around it are instantiated.

* `Graph.WellFormed.isOk_initFromName` — what the name of a variable initializes.
* `Graph.Reachable.referenceVariable_initializes` — **a variable of type `T` and one of type `T&`
  initialize the same object only where the choice of a conversion is put off.**
-/

set_option autoImplicit false
namespace SemanticCore

open SemanticCore.Graph

namespace Graph

variable {g g' : Graph} {t : TypeHandle} {e : ExprHandle}

/-! ## What can be copied -/

/-- An expression as an initializer sees it. -/
structure Source where
  /-- The type without one reference. -/
  type : TypeHandle
  /-- There was a reference: the expression names an object of the type. -/
  named : Bool

/-- What an initializer sees of an expression. -/
def source (g : Graph) (e : ExprHandle) : Source :=
  ⟨g.nonReference (g.exprType e), g.isReference (g.exprType e)⟩

/-- The type that the source has by value. -/
def Source.value (g : Graph) (s : Source) : TypeHandle :=
  if s.named then g.unqualified s.type else s.type

/-- The type is none of those that have rules of their own, so that an object of it is initialized
by value. -/
structure TakesValue (g : Graph) (t : TypeHandle) : Prop where
  isReference : g.isReference t = false
  isSequence : (g.type t).isSequence = false
  isClass : g.isClass t = false

/-- An object of type `t` is initialized from type `s` by a conversion whose choice is put off,
since one of the types is known only once a template is instantiated. -/
def DefersCopy (g : Graph) (t s : TypeHandle) : Prop :=
  g.isReference t = false ∧
    (g.isDependent t = true ∨ g.TakesValue t ∧ g.isDependent s = true)

/-- An object or a reference of type `t` can be initialized by a copy of the source. -/
inductive TakesCopy (g : Graph) (t : TypeHandle) (s : Source) : Prop
  | bind {a : TypeHandle} (ht : g.type t = .reference a) (hs : s.named = true)
    (ha : g.referenceCompatible a s.type = true)
  | defer (h : g.DefersCopy t s.type)
  | convert (ht : g.TakesValue t) (hs : g.isClass s.type = false) (h : g.Converts (s.value g) t)

theorem typeByValue_eq_value (g : Graph) (e : ExprHandle) :
    g.typeByValue e = (g.source e).value g := by
  rw [typeByValue, source, Source.value]
  split
  · rfl
  · next hr => exact (nonReference_of_plain (eq_false_of_ne_true hr)).symm

/-- Only dependent objects are initialized without taking the value. -/
theorem TakesCopy.takesValue {s : Source} (h : g.TakesCopy t s) (hr : g.isReference t = false)
    (hd : g.isDependent t = false) : g.TakesValue t := by
  cases h with
  | bind ht => exact absurd (isReference_of_type ht) (hr ▸ Bool.false_ne_true)
  | defer h => exact (h.2.resolve_left (hd ▸ Bool.false_ne_true)).1
  | convert ht => exact ht

/-- A source whose type is no class and not dependent initializes by conversion. -/
theorem TakesCopy.converts {s : Source} (h : g.TakesCopy t s) (hr : g.isReference t = false)
    (hd : g.isDependent t = false) (hs : g.isDependent s.type = false) :
    g.isClass s.type = false ∧ g.Converts (s.value g) t := by
  cases h with
  | bind ht => exact absurd (isReference_of_type ht) (hr ▸ Bool.false_ne_true)
  | defer h =>
    have hdep := (h.2.resolve_left (hd ▸ Bool.false_ne_true)).2
    exact absurd hdep (hs ▸ Bool.false_ne_true)
  | convert _ hclass h => exact ⟨hclass, h⟩

/-- A reference is bound to a compatible object, and to nothing else. -/
theorem isOk_initReference (hr : g.isReference t = true) :
    (Build.initReference t e g).1.isOk = true ↔ g.TakesCopy t (g.source e) := by
  have hf := type_of_isReference hr
  rw [Attempt.isOk_iff_refusal?, Build.refusal?_initReference, if_pos hr]
  split
  · next h =>
    rw [Bool.and_eq_true] at h
    exact iff_of_true rfl (.bind hf h.1 h.2)
  · next h =>
    refine iff_of_false (Option.some_ne_none _) fun hcopy => ?_
    cases hcopy with
    | bind ht hs ha =>
      cases hf.symm.trans ht
      exact h (Bool.and_eq_true _ _ ▸ ⟨hs, ha⟩)
    | defer h => exact absurd hr (h.1 ▸ Bool.false_ne_true)
    | convert ht => exact absurd hr (ht.isReference ▸ Bool.false_ne_true)

/-- An object that is initialized by value takes a copy if the conversion of the expression is put
off or succeeds. -/
theorem WellFormed.isOk_convertAndCopy (hg : g.WellFormed) (ht : g.contains t = true)
    (he : g.contains e = true) (hvalue : g.TakesValue t) (hd : g.isDependent t = false) :
    (Build.convertAndCopy t e g).1.isOk = true ↔ g.TakesCopy t (g.source e) := by
  have hr := hvalue.isReference
  rw [Attempt.isOk_iff_refusal?, Build.refusal?_convertAndCopy]
  split
  · next hs => exact iff_of_true rfl (.defer ⟨hr, .inr ⟨hvalue, hs⟩⟩)
  next hs =>
  have hconverts : g.TakesCopy t (g.source e) → _ :=
    fun h => h.converts hr hd (eq_false_of_ne_true hs)
  split
  · next hclass =>
    exact iff_of_false (Option.some_ne_none _) fun h =>
      absurd hclass ((hconverts h).1 ▸ Bool.false_ne_true)
  · next hclass =>
    rw [← Attempt.isOk_iff_refusal?, hg.isOk_convert he ht, typeByValue_eq_value]
    exact ⟨.convert hvalue (eq_false_of_ne_true hclass), fun h => (hconverts h).2⟩

/-- **What a copy initializes**: the rules of initialization are tried one after another, and
succeed exactly if the object takes a copy of the expression. -/
theorem WellFormed.isOk_initCopy (hg : g.WellFormed) (ht : g.contains t = true)
    (he : g.contains e = true) :
    (Build.initCopy t e g).1.isOk = true ↔ g.TakesCopy t (g.source e) := by
  rw [Attempt.isOk_iff_refusal?, Build.refusal?_initCopy]
  split
  · next hr => rw [← Attempt.isOk_iff_refusal?, isOk_initReference hr]
  next hr =>
  rw [Bool.not_eq_true] at hr
  split
  · next hd => exact iff_of_true rfl (.defer ⟨hr, .inl hd⟩)
  next hd =>
  rw [Bool.not_eq_true] at hd
  have hvalue : g.TakesCopy t (g.source e) → g.TakesValue t := fun h => h.takesValue hr hd
  split
  · next hseq =>
    exact iff_of_false (Option.some_ne_none _) fun h =>
      absurd hseq ((hvalue h).isSequence ▸ Bool.false_ne_true)
  next hseq =>
  split
  · next hclass =>
    exact iff_of_false (Option.some_ne_none _) fun h =>
      absurd hclass ((hvalue h).isClass ▸ Bool.false_ne_true)
  · next hclass =>
    rw [← Attempt.isOk_iff_refusal?]
    exact hg.isOk_convertAndCopy ht he
      ⟨hr, eq_false_of_ne_true hseq, eq_false_of_ne_true hclass⟩ hd

/-! ## What can be copied does not change -/

theorem WellFormed.isClass_extend (hg : g.WellFormed) (h : g.Extends g')
    (ht : g.contains t = true) : g'.isClass t = g.isClass t := by
  rw [isClass, isClass, h.unqualified ht, h.type (hg.contains_unqualified ht)]

theorem WellFormed.takesValue_extend (hg : g.WellFormed) (h : g.Extends g')
    (ht : g.contains t = true) : g'.TakesValue t ↔ g.TakesValue t := by
  have hr := h.isReference ht
  have hs := congrArg TypeForm.isSequence (h.type ht)
  have hc := hg.isClass_extend h ht
  constructor
  · rintro ⟨hr', hs', hc'⟩
    exact ⟨hr ▸ hr', hs ▸ hs', hc ▸ hc'⟩
  · rintro ⟨hr', hs', hc'⟩
    exact ⟨hr.trans hr', hs.trans hs', hc.trans hc'⟩

theorem WellFormed.defersCopy_extend (hg : g.WellFormed) (h : g.Extends g') {s : TypeHandle}
    (ht : g.contains t = true) (hs : g.contains s = true) :
    g'.DefersCopy t s ↔ g.DefersCopy t s := by
  rw [DefersCopy, DefersCopy, h.isReference ht, hg.isDependent_extend h ht,
    hg.isDependent_extend h hs, hg.takesValue_extend h ht]

theorem WellFormed.converts_extend (hg : g.WellFormed) (h : g.Extends g') {s : TypeHandle}
    (hs : g.contains s = true) (ht : g.contains t = true) :
    g'.Converts s t ↔ g.Converts s t := by
  rw [Converts, Converts, h.unqualified ht,
    hg.conversionKind?_extend h hs (hg.contains_unqualified ht)]

/-- **Whether an object takes a copy of a source does not change when the graph is extended.** -/
theorem WellFormed.takesCopy_extend (hg : g.WellFormed) (h : g.Extends g') {s : Source}
    (ht : g.contains t = true) (hs : g.contains s.type = true) :
    g'.TakesCopy t s ↔ g.TakesCopy t s := by
  have hv : s.value g' = s.value g := by
    rw [Source.value, Source.value, h.unqualified hs]
  have hcv : g.contains (s.value g) = true := by
    rw [Source.value]
    split
    · exact hg.contains_unqualified hs
    · exact hs
  have hconvert := hg.converts_extend h hcv ht
  rw [← hv] at hconvert
  constructor
  · rintro (⟨hf, hn, ha⟩ | hd | ⟨htv, hc, hc'⟩)
    · rw [h.type ht] at hf
      rw [h.referenceCompatible (hg.contains_referenced ht hf) hs] at ha
      exact .bind hf hn ha
    · exact .defer ((hg.defersCopy_extend h ht hs).1 hd)
    · rw [hg.isClass_extend h hs] at hc
      exact .convert ((hg.takesValue_extend h ht).1 htv) hc (hv ▸ hconvert.1 hc')
  · rintro (⟨hf, hn, ha⟩ | hd | ⟨htv, hc, hc'⟩)
    · rw [← h.referenceCompatible (hg.contains_referenced ht hf) hs] at ha
      rw [← h.type ht] at hf
      exact .bind hf hn ha
    · exact .defer ((hg.defersCopy_extend h ht hs).2 hd)
    · rw [← hg.isClass_extend h hs] at hc
      exact .convert ((hg.takesValue_extend h ht).2 htv) hc (hconvert.2 (hv.symm ▸ hc'))

end Graph

/-! ## Names of variables -/

/-- The name of a declaration that has a type is an expression of type reference to that type. -/
theorem Attempt.Succeeds.referenceTo {g : Graph} (hg : g.WellFormed) {d : DeclHandle}
    {t : TypeHandle} (hd : g.declaredType? d = some t) :
    Attempt.Succeeds g (Build.referenceTo d) fun e g' =>
      g'.contains e = true ∧ g'.source e = ⟨t, true⟩ := by
  refine .get_bind ?_
  rw [hd]
  have ht := hg.contains_declaredType? hd
  refine .bind hg (.lift (.type (f := .reference t) ht)) fun r g₁ hgrow hg₁ hr => ?_
  have hd₁ := (hgrow.extends.declaredType? (contains_of_declaredType? hd)).trans hd
  have hexpr : Expr.Fits g₁ ⟨.reference d, r⟩ := ⟨hr.1, t, hd₁, hr.2⟩
  obtain ⟨hgrow₂, he, htype⟩ := Build.Yields.exprType hexpr
  refine .lift ⟨hgrow₂, he, ?_⟩
  rw [source, htype, nonReference, isReference, hgrow₂.extends.type hr.1, hr.2]
  rfl

/-- Initialize an object from the name of a declaration. -/
def Build.initFromName (t : TypeHandle) (d : DeclHandle) : Attempt SemanticError InitHandle := do
  initCopy t (← (referenceTo d).adapt SemanticError.ofBuild)

namespace Graph

variable {g : Graph}

/-- **What the name of a variable initializes.** -/
theorem WellFormed.isOk_initFromName (hg : g.WellFormed) {t s : TypeHandle} {d : DeclHandle}
    (ht : g.contains t = true) (hd : g.declaredType? d = some s) :
    (Build.initFromName t d g).1.isOk = true ↔ g.TakesCopy t ⟨s, true⟩ := by
  obtain ⟨e, g₁, hrun, hgrow, he, hsource⟩ :=
    (Attempt.Succeeds.referenceTo hg hd).adapt (k := SemanticError.ofBuild)
  rw [Build.initFromName, Attempt.bind_of_ok hrun,
    (hgrow.wellFormed hg).isOk_initCopy (hgrow.contains ht) he, hsource]
  exact hg.takesCopy_extend hgrow.extends ht (hg.contains_declaredType? hd)

/-- A type with one component is dependent exactly if the component is, unless it is a placeholder
or a parameter itself. -/
theorem WellFormed.isDependent_component (hg : g.WellFormed) {t a : TypeHandle}
    (ht : g.contains t = true) (hown : (g.type t).ownFlags = .none)
    (hc : (g.type t).components = [a]) : g.isDependent t = g.isDependent a := by
  have hflags : g.typeFlags t = g.flagsOf (g.type t) := (hg.placed t ht).2.2
  rw [isDependent, isDependent, hflags, flagsOf, hown, hc]
  exact congrArg TypeFlags.isDependent (TypeFlags.none_union _ |>.trans (TypeFlags.none_union _))

/-- A reference is dependent exactly if the type referred to is. -/
theorem WellFormed.isDependent_reference (hg : g.WellFormed) {t a : TypeHandle}
    (ht : g.contains t = true) (h : g.type t = .reference a) :
    g.isDependent t = g.isDependent a :=
  hg.isDependent_component ht (by rw [h]; rfl) (by rw [h]; rfl)

/-- No object is initialized by value from a reference: what is left by value of the name of a
reference is a reference. -/
theorem WellFormed.not_converts_reference (hg : g.WellFormed) {t r : TypeHandle}
    (ht : g.contains t = true) (hr : g.isReference r = true) (htr : g.isReference t = false) :
    ¬ g.Converts (g.unqualified r) t := by
  rw [unqualified_of_plain (isQualified_of_isReference hr)]
  intro h
  exact absurd hr ((hg.isBare_of_converts ht htr h).isReference ▸ Bool.false_ne_true)

theorem referenceCompatible_iff {a b : TypeHandle} : g.referenceCompatible a b = true ↔
    g.unqualified a = g.unqualified b ∧ (g.quals a).covers (g.quals b) = true := by
  rw [referenceCompatible, referenceRelated, Bool.and_eq_true, decide_eq_true_iff]

/-- What is compatible is a reference either in both cases or in none. -/
theorem WellFormed.isReference_of_compatible (hg : g.WellFormed) {a b : TypeHandle}
    (ha : g.contains a = true) (hb : g.contains b = true)
    (h : g.referenceCompatible a b = true) : g.isReference a = g.isReference b := by
  rw [← hg.isReference_unqualified ha, (referenceCompatible_iff.1 h).1,
    hg.isReference_unqualified hb]

/-- Only the same reference is compatible with a reference. -/
theorem WellFormed.eq_of_referenceCompatible (hg : g.WellFormed) {a r : TypeHandle}
    (ha : g.contains a = true) (hc : g.contains r = true) (hr : g.isReference r = true)
    (h : g.referenceCompatible a r = true) : a = r := by
  have har := (hg.isReference_of_compatible ha hc h).trans hr
  have hsame := (referenceCompatible_iff.1 h).1
  rwa [unqualified_of_plain (isQualified_of_isReference hr),
    unqualified_of_plain (isQualified_of_isReference har)] at hsame

theorem referenceCompatible_refl (g : Graph) (t : TypeHandle) :
    g.referenceCompatible t t = true := by
  rw [referenceCompatible, referenceRelated_refl, Qualifiers.covers_refl]
  rfl

/-- **What the name of a reference initializes**: a reference to the very type of the reference, and
what is initialized by a deferred conversion. -/
theorem WellFormed.takesCopy_reference_iff (hg : g.WellFormed) {t r a : TypeHandle}
    (ht : g.contains t = true) (hr : g.contains r = true) (hf : g.type r = .reference a) :
    g.TakesCopy t ⟨r, true⟩ ↔ g.type t = .reference r ∨ g.DefersCopy t a := by
  have href := isReference_of_type hf
  have hdefer : g.DefersCopy t r ↔ g.DefersCopy t a := by
    rw [DefersCopy, DefersCopy, hg.isDependent_reference hr hf]
  constructor
  · rintro (⟨hb, -, hbr⟩ | h | ⟨htv, -, h⟩)
    · cases hg.eq_of_referenceCompatible (hg.contains_referenced ht hb) hr href hbr
      exact .inl hb
    · exact .inr (hdefer.1 h)
    · exact absurd h (hg.not_converts_reference ht href htv.isReference)
  · rintro (h | h)
    · exact .bind h rfl (g.referenceCompatible_refl r)
    · exact .defer (hdefer.2 h)

/-- A reference to a reference takes no copy of an object that is none. -/
theorem WellFormed.not_takesCopy_of_reference (hg : g.WellFormed) {t r a : TypeHandle}
    (ht : g.contains t = true) (ha : g.contains a = true) (hf : g.type t = .reference r)
    (hr : g.isReference r = true) (har : g.isReference a = false) :
    ¬ g.TakesCopy t ⟨a, true⟩ := by
  have hrt := isReference_of_type hf
  rintro (⟨hb, -, hba⟩ | h | ⟨htv, -, -⟩)
  · cases hf.symm.trans hb
    have hsame := hg.isReference_of_compatible (hg.contains_referenced ht hf) ha hba
    exact absurd (hsame.symm.trans hr) (har ▸ Bool.false_ne_true)
  · exact absurd hrt (h.1 ▸ Bool.false_ne_true)
  · exact absurd hrt (htv.isReference ▸ Bool.false_ne_true)

/-- **A reference variable is not what it refers to.**  The name of a variable of type `T&`
initializes a reference to `T&`, and what is initialized by a deferred conversion.  The name of a
variable of type `T` initializes whatever takes a copy of an object of type `T`.  So both initialize
an object or reference of the same type only by deferred conversions. -/
theorem Reachable.referenceVariable_initializes (hg : g.Reachable) {t ref target : TypeHandle}
    {r x : DeclHandle} {i j : Option InitHandle} (ht : g.isReference t = false)
    (href : g.type ref = .reference t) (hr : (g.decl r).form = .var ref i)
    (hx : (g.decl x).form = .var t j) (htarget : g.contains target = true) :
    ((Build.initFromName target r g).1.isOk = true ↔
      g.type target = .reference ref ∨ g.DefersCopy target t) ∧
    ((Build.initFromName target x g).1.isOk = true ↔ g.TakesCopy target ⟨t, true⟩) ∧
    ((Build.initFromName target r g).1.isOk = true ∧
      (Build.initFromName target x g).1.isOk = true ↔ g.DefersCopy target t) := by
  have hw := hg.wellFormed
  have hrd : g.declaredType? r = some ref := by rw [declaredType?, hr]
  have hxd : g.declaredType? x = some t := by rw [declaredType?, hx]
  have hname := hw.isOk_initFromName htarget hrd
  rw [hw.takesCopy_reference_iff htarget (hw.contains_declaredType? hrd) href] at hname
  have hobject := hw.isOk_initFromName htarget hxd
  refine ⟨hname, hobject, ?_⟩
  rw [hname, hobject]
  constructor
  · rintro ⟨h | h, hcopy⟩
    · exact absurd hcopy (hw.not_takesCopy_of_reference htarget (hw.contains_declaredType? hxd) h
        (isReference_of_type href) ht)
    · exact h
  · exact fun h => ⟨.inr h, .defer h⟩

/-! ## The names of `int x` and `int& r` -/

/-- The graph of `int x`, of type 3, `int& r`, of type 4, and a placeholder type, 9. -/
def variableAndReference : Graph :=
  (Build.autoType layeredNames).2

theorem variableAndReference_reachable : variableAndReference.Reachable :=
  layeredNames_reachable.operation .autoType

/-- An object of placeholder type takes both names, a reference to `int&` takes that of `r`, and a
reference to `int` takes that of `x`. -/
theorem referenceVariable_initializes_auto :
    variableAndReference.Reachable ∧ variableAndReference.isReference ⟨3⟩ = false ∧
    variableAndReference.type ⟨4⟩ = .reference ⟨3⟩ ∧
    (variableAndReference.decl ⟨2⟩).form = .var ⟨4⟩ none ∧
    (variableAndReference.decl ⟨1⟩).form = .var ⟨3⟩ none ∧
    (variableAndReference.contains (⟨9⟩ : TypeHandle) = true ∧
      (Build.initFromName ⟨9⟩ ⟨2⟩ variableAndReference).1.isOk = true ∧
      (Build.initFromName ⟨9⟩ ⟨1⟩ variableAndReference).1.isOk = true) ∧
    (variableAndReference.contains (⟨5⟩ : TypeHandle) = true ∧
      (Build.initFromName ⟨5⟩ ⟨2⟩ variableAndReference).1.isOk = true) ∧
    (variableAndReference.contains (⟨4⟩ : TypeHandle) = true ∧
      (Build.initFromName ⟨4⟩ ⟨1⟩ variableAndReference).1.isOk = true) := by
  have hg := variableAndReference_reachable
  have ht : variableAndReference.isReference ⟨3⟩ = false := rfl
  have hf : variableAndReference.type ⟨4⟩ = .reference ⟨3⟩ := rfl
  have hr : (variableAndReference.decl ⟨2⟩).form = .var ⟨4⟩ none := rfl
  have hx : (variableAndReference.decl ⟨1⟩).form = .var ⟨3⟩ none := rfl
  have hauto : variableAndReference.contains (⟨9⟩ : TypeHandle) = true := rfl
  have htwice : variableAndReference.contains (⟨5⟩ : TypeHandle) = true := rfl
  have href : variableAndReference.contains (⟨4⟩ : TypeHandle) = true := rfl
  have hdefer : variableAndReference.DefersCopy ⟨9⟩ ⟨3⟩ := ⟨rfl, .inl rfl⟩
  have hbind : variableAndReference.TakesCopy ⟨4⟩ ⟨⟨3⟩, true⟩ :=
    .bind hf rfl (variableAndReference.referenceCompatible_refl ⟨3⟩)
  have hboth := (hg.referenceVariable_initializes ht hf hr hx hauto).2.2.2 hdefer
  exact ⟨hg, ht, hf, hr, hx, ⟨hauto, hboth.1, hboth.2⟩,
    ⟨htwice, (hg.referenceVariable_initializes ht hf hr hx htwice).1.2 (.inl rfl)⟩,
    ⟨href, (hg.referenceVariable_initializes ht hf hr hx href).2.1.2 hbind⟩⟩

/-- Neither `int` nor `int&` takes the name of `r`, while both take that of `x`. -/
theorem referenceVariable_refused :
    variableAndReference.Reachable ∧ variableAndReference.isReference ⟨3⟩ = false ∧
    variableAndReference.type ⟨4⟩ = .reference ⟨3⟩ ∧
    (variableAndReference.decl ⟨2⟩).form = .var ⟨4⟩ none ∧
    (variableAndReference.decl ⟨1⟩).form = .var ⟨3⟩ none ∧
    (variableAndReference.contains (⟨3⟩ : TypeHandle) = true ∧
      (Build.initFromName ⟨3⟩ ⟨1⟩ variableAndReference).1.isOk = true ∧
      (Build.initFromName ⟨3⟩ ⟨2⟩ variableAndReference).1 =
        .error (.type (.noConversion ⟨4⟩ ⟨3⟩))) ∧
    (variableAndReference.contains (⟨4⟩ : TypeHandle) = true ∧
      (Build.initFromName ⟨4⟩ ⟨1⟩ variableAndReference).1.isOk = true ∧
      (Build.initFromName ⟨4⟩ ⟨2⟩ variableAndReference).1 =
        .error (.type (.referenceBinding ⟨4⟩ ⟨4⟩))) :=
  ⟨variableAndReference_reachable, rfl, rfl, rfl, rfl, by decide +kernel⟩

end Graph
end SemanticCore
