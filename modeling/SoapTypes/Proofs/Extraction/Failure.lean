import SoapTypes.Proofs.Extraction.Declarations
import SoapTypes.Proofs.FirstMember

/-!
# Failures of extraction

Extraction fails with the first declaration that fails, elements before simple types and these
before named complex types. For each kind of declaration this file says which faults make it fail
and with which error. What is passed over cannot fail, whatever it holds.
-/

namespace SoapTypes.Schema

open Xml

/-- A reference that is not a known prefix and a colon with something behind. -/
def BadReference (reference : String) : Prop :=
  ¬ ∃ name, name ≠ "" ∧ (reference = "xsd:" ++ name ∨ reference = "tns:" ++ name)

/-- An error is that of the first member of a list that has one. -/
def FirstError {α : Type} (fails : α → Error → Prop) (xs : List α) (error : Error) : Prop :=
  ∃ x, FirstOf (fun x => ∃ error, fails x error) xs x ∧ fails x error

/-- An element of a sequence fails if it has a name and a type and the type is a bad reference. -/
inductive FieldFails (e : Element) : Error → Prop
  | type {name reference : String} (hname : e.attribute? "name" = some name)
      (htype : e.attribute? "type" = some reference) (hbad : BadReference reference) :
      FieldFails e (.unknownReference reference)

/-- A sequence fails as the first of its elements does that fails. -/
def SequenceFails (sequence : Element) : Error → Prop :=
  FirstError FieldFails (sequence.childrenNamed "element")

/-- A child of a schema element that may declare a type. -/
inductive Declaration
  | element (e : Element)
  | simpleType (e : Element)
  | complexType (e : Element)

/-- The declarations in a schema element, by kind and within a kind in the order of the document. -/
def declarations (schema : Element) : List Declaration :=
  (schema.childrenNamed "element").map .element ++
    ((schema.childrenNamed "simpleType").map .simpleType ++
      (schema.childrenNamed "complexType").map .complexType)

namespace Declaration

/-- What extraction makes of a declaration: a type, nothing if it is passed over, or an error. -/
def outcome : Declaration → Except Error (Option (SimpleType ⊕ ComplexType))
  | element e => (elementTypeOf e).result.map (·.map .inr)
  | simpleType e => (simpleTypeOf e).map fun t => some (.inl t)
  | complexType e => (complexTypeOf e).result.map (·.map .inr)

/-- The faults of declarations and the errors that they lead to. -/
inductive Fails : Declaration → Error → Prop
  | element {e sequence : Element} {name : String} {error : Error}
      (hname : e.attribute? "name" = some name)
      (hsequence : e.descend? ["complexType", "sequence"] = some sequence)
      (hfails : SequenceFails sequence error) : Fails (.element e) error
  | unnamedSimpleType {e : Element} (hname : e.attribute? "name" = none) :
      Fails (.simpleType e) (.emptySimpleType "<unnamed>")
  | unrestricted {e : Element} {name : String} (hname : e.attribute? "name" = some name)
      (hrestriction : e.child? "restriction" = none) :
      Fails (.simpleType e) (.emptySimpleType name)
  | restrictedBase {e restriction : Element} {name reference : String}
      (hname : e.attribute? "name" = some name)
      (hrestriction : e.child? "restriction" = some restriction)
      (hbase : restriction.attribute? "base" = some reference) (hbad : BadReference reference) :
      Fails (.simpleType e) (.unknownReference reference)
  | neitherBaseNorEnumeration {e restriction : Element} {name : String}
      (hname : e.attribute? "name" = some name)
      (hrestriction : e.child? "restriction" = some restriction)
      (hbase : restriction.attribute? "base" = none)
      (henumeration : restriction.childrenNamed "enumeration" = []) :
      Fails (.simpleType e) (.emptySimpleType name)
  | sequence {e sequence : Element} {name : String} {error : Error}
      (hname : e.attribute? "name" = some name) (hsequence : e.child? "sequence" = some sequence)
      (hwildcard : isWildcardOnly sequence = false) (hfails : SequenceFails sequence error) :
      Fails (.complexType e) error
  | extensionField {e extension sequence : Element} {name reference : String} {error : Error}
      (hname : e.attribute? "name" = some name) (hsequence : e.child? "sequence" = none)
      (hextension : e.descend? ["complexContent", "extension"] = some extension)
      (hbase : extension.attribute? "base" = some reference)
      (hfields : extension.child? "sequence" = some sequence)
      (hfails : SequenceFails sequence error) : Fails (.complexType e) error
  | extendedBase {e extension : Element} {name reference : String}
      (hname : e.attribute? "name" = some name) (hsequence : e.child? "sequence" = none)
      (hextension : e.descend? ["complexContent", "extension"] = some extension)
      (hbase : extension.attribute? "base" = some reference)
      (hfields : ∀ sequence, extension.child? "sequence" = some sequence →
        ∀ error, ¬ SequenceFails sequence error)
      (hbad : BadReference reference) : Fails (.complexType e) (.unknownReference reference)

/-- The declarations that are passed over. -/
inductive PassedOver : Declaration → Prop
  | noInlineSequence {e : Element} (hsequence : e.descend? ["complexType", "sequence"] = none) :
      PassedOver (.element e)
  | unnamedElement {e : Element} (hname : e.attribute? "name" = none) : PassedOver (.element e)
  | unnamedComplexType {e : Element} (hname : e.attribute? "name" = none) :
      PassedOver (.complexType e)
  | wildcards {e sequence : Element} (hsequence : e.child? "sequence" = some sequence)
      (hwildcard : isWildcardOnly sequence = true) : PassedOver (.complexType e)
  | noBase {e extension : Element} (hsequence : e.child? "sequence" = none)
      (hextension : e.descend? ["complexContent", "extension"] = some extension)
      (hbase : extension.attribute? "base" = none) : PassedOver (.complexType e)
  | noContent {e : Element} (hsequence : e.child? "sequence" = none)
      (hextension : e.descend? ["complexContent", "extension"] = none) :
      PassedOver (.complexType e)

end Declaration

/-- Where each member of a list fails as told, a search for errors ends in the first one. -/
theorem findSome?_failure?_eq_some_iff {α β : Type} {f : α → Except Error β}
    {fails : α → Error → Prop} {xs : List α}
    (h : ∀ x ∈ xs, ∀ error, f x = .error error ↔ fails x error) {error : Error} :
    (xs.findSome? fun x => failure? (f x)) = some error ↔ FirstError fails xs error := by
  rw [findSome?_failure?_iff_firstOf fun x hx => exists_congr fun error => (h x hx error).symm]
  exact exists_congr fun x => and_congr_right fun hfirst => h x hfirst.mem error

theorem resolve_eq_error_iff {reference : String} {error : Error} :
    resolve reference = .error error ↔
      BadReference reference ∧ error = .unknownReference reference := by
  have hgood (name : String) : resolve reference = .ok name ↔
      name ≠ "" ∧ (reference = "xsd:" ++ name ∨ reference = "tns:" ++ name) := resolve_eq_ok_iff
  simp only [BadReference, ← hgood]
  unfold resolve
  cases referredName? reference with
  | none => simp [eq_comm]
  | some name => simp

/-- A field fails exactly by a bad type. -/
theorem fieldOf_eq_error_iff {e : Element} {error : Error} :
    (fieldOf e).result = .error error ↔ FieldFails e error := by
  constructor
  · intro h
    unfold fieldOf at h
    split at h
    · next name reference hname htype =>
      rw [Report.result_ofExcept, except_map_eq_error_iff, resolve_eq_error_iff] at h
      obtain ⟨hbad, rfl⟩ := h
      exact .type hname htype hbad
    · cases h
  · rintro ⟨hname, htype, hbad⟩
    unfold fieldOf
    simp only [hname, htype, Report.result_ofExcept]
    rw [resolve_eq_error_iff.2 ⟨hbad, rfl⟩]
    rfl

/-- The fields of a sequence fail as the first of its elements does. -/
theorem fieldsOf_eq_error_iff {sequence : Element} {error : Error} :
    (fieldsOf (sequence.childrenNamed "element")).result = .error error ↔
      SequenceFails sequence error := by
  rw [← failure?_eq_some_iff, fieldsOf, Report.failure?_collect,
    findSome?_failure?_eq_some_iff fun e _ _ => fieldOf_eq_error_iff, SequenceFails]

/-- A run that goes on with a sequence's fields without failing fails as the sequence does. -/
theorem fieldsOf_bind_eq_error_iff {α : Type} {sequence : Element} {f : List Field → α}
    {error : Error} :
    ((fieldsOf (sequence.childrenNamed "element")).bind fun fields =>
        Report.ok (f fields)).result = .error error ↔ SequenceFails sequence error := by
  simp only [← failure?_eq_some_iff, Report.result_bind, Report.result_ok, failure?_bind_ok]
  rw [failure?_eq_some_iff, fieldsOf_eq_error_iff]

/-- An element fails as its own sequence does. -/
theorem elementTypeOf_eq_error_iff {e : Element} {error : Error} :
    (elementTypeOf e).result = .error error ↔ (Declaration.element e).Fails error := by
  unfold elementTypeOf
  constructor
  · intro h
    cases hsequence : e.descend? ["complexType", "sequence"] with
    | none =>
      rw [hsequence] at h
      cases h
    | some sequence =>
      cases hname : e.attribute? "name" with
      | none =>
        rw [hsequence, hname] at h
        cases h
      | some name =>
        rw [hsequence, hname] at h
        exact .element hname hsequence (fieldsOf_bind_eq_error_iff.1 h)
  · rintro ⟨hname, hsequence, hfails⟩
    rw [hsequence, hname]
    exact fieldsOf_bind_eq_error_iff.2 hfails

theorem resolve?_eq_error_iff {reference? : Option String} {error : Error} :
    resolve? reference? = .error error ↔
      ∃ reference, reference? = some reference ∧ BadReference reference ∧
        error = .unknownReference reference := by
  cases reference? with
  | none => simp [resolve?]
  | some reference =>
    rw [resolve?, except_map_eq_error_iff, resolve_eq_error_iff]
    simp

/-- A simple type fails for want of a name, of a restriction or of content, or by a bad base. -/
theorem simpleTypeOf_eq_error_iff {e : Element} {error : Error} :
    simpleTypeOf e = .error error ↔ (Declaration.simpleType e).Fails error := by
  unfold simpleTypeOf
  constructor
  · intro h
    cases hname : e.attribute? "name" with
    | none =>
      rw [hname] at h
      obtain rfl := Except.error.inj h
      exact .unnamedSimpleType hname
    | some name =>
      cases hrestriction : e.child? "restriction" with
      | none =>
        rw [hname, hrestriction] at h
        obtain rfl := Except.error.inj h
        exact .unrestricted hname hrestriction
      | some restriction =>
        rw [hname, hrestriction] at h
        rcases except_bind_eq_error_iff.1 h with hresolve | ⟨base, hresolve, hcontent⟩
        · obtain ⟨reference, hbase, hbad, rfl⟩ := resolve?_eq_error_iff.1 hresolve
          exact .restrictedBase hname hrestriction hbase hbad
        · cases henumeration : restriction.childrenNamed "enumeration" with
          | cons value values =>
            rw [henumeration] at hcontent
            cases hcontent
          | nil =>
            rw [henumeration] at hcontent
            cases base with
            | some base => cases hcontent
            | none =>
              have hbase : restriction.attribute? "base" = none := by
                simpa using resolve?_eq_ok_iff.1 hresolve
              obtain rfl := Except.error.inj hcontent
              exact .neitherBaseNorEnumeration hname hrestriction hbase henumeration
  · intro h
    cases h with
    | unnamedSimpleType hname => rw [hname]
    | unrestricted hname hrestriction => rw [hname, hrestriction]
    | restrictedBase hname hrestriction hbase hbad =>
      rw [hname, hrestriction]
      exact except_bind_eq_error_iff.2 (Or.inl (resolve?_eq_error_iff.2 ⟨_, hbase, hbad, rfl⟩))
    | neitherBaseNorEnumeration hname hrestriction hbase henumeration =>
      simp only [hname, hrestriction, hbase, henumeration, resolve?]
      rfl

/-- The fields of the first sequence of an element fail as that sequence does. -/
theorem sequenceFieldsOf_eq_error_iff {e : Element} {error : Error} :
    (sequenceFieldsOf e).result = .error error ↔
      ∃ sequence, e.child? "sequence" = some sequence ∧ SequenceFails sequence error := by
  unfold sequenceFieldsOf
  cases e.child? "sequence" with
  | none => simp
  | some sequence => simp [fieldsOf_eq_error_iff]

/-- An extension with a base fails by its fields, or else by the base. -/
theorem extensionOf_eq_error_iff {name reference : String} {extension : Element} {error : Error}
    (hbase : extension.attribute? "base" = some reference) :
    (extensionOf name extension).result = .error error ↔
      (∃ sequence, extension.child? "sequence" = some sequence ∧ SequenceFails sequence error) ∨
        (∀ sequence, extension.child? "sequence" = some sequence →
          ∀ error, ¬ SequenceFails sequence error) ∧
        BadReference reference ∧ error = .unknownReference reference := by
  have hfields : (∃ fields, (sequenceFieldsOf extension).result = .ok fields) ↔
      ∀ sequence, extension.child? "sequence" = some sequence →
        ∀ error, ¬ SequenceFails sequence error := by
    rw [← failure?_eq_none_iff, Option.eq_none_iff_forall_ne_some]
    simp only [ne_eq, failure?_eq_some_iff, sequenceFieldsOf_eq_error_iff, not_exists, not_and]
    exact ⟨fun h sequence hsequence error => h error sequence hsequence,
      fun h error sequence hsequence => h sequence hsequence error⟩
  simp only [extensionOf, hbase, Report.bind_eq_bind, Report.pure_eq_ok, Report.result_bind,
    Report.result_ok, Report.result_ofExcept, except_bind_eq_error_iff,
    sequenceFieldsOf_eq_error_iff, reduceCtorEq, and_false, exists_false, or_false,
    resolve_eq_error_iff, exists_and_right, hfields]

/-- A complex type fails by the fields of its sequence, or else as its extension does. -/
theorem complexTypeOf_eq_error_iff {e : Element} {error : Error} :
    (complexTypeOf e).result = .error error ↔ (Declaration.complexType e).Fails error := by
  unfold complexTypeOf
  constructor
  · intro h
    cases hname : e.attribute? "name" with
    | none =>
      rw [hname] at h
      cases h
    | some name =>
      cases hsequence : e.child? "sequence" with
      | some sequence =>
        rw [hname, hsequence] at h
        cases hwildcard : isWildcardOnly sequence with
        | true =>
          simp only [hwildcard, if_true] at h
          cases h
        | false =>
          simp only [hwildcard, Bool.false_eq_true, if_false] at h
          exact .sequence hname hsequence hwildcard (fieldsOf_bind_eq_error_iff.1 h)
      | none =>
        cases hextension : e.descend? ["complexContent", "extension"] with
        | none =>
          rw [hname, hsequence, hextension] at h
          cases h
        | some extension =>
          rw [hname, hsequence, hextension] at h
          cases hbase : extension.attribute? "base" with
          | none =>
            simp only [extensionOf, hbase] at h
            cases h
          | some reference =>
            rcases (extensionOf_eq_error_iff hbase).1 h with
              ⟨sequence, hfields, hfails⟩ | ⟨hfields, hbad, rfl⟩
            · exact .extensionField hname hsequence hextension hbase hfields hfails
            · exact .extendedBase hname hsequence hextension hbase hfields hbad
  · intro h
    cases h with
    | sequence hname hsequence hwildcard hfails =>
      simp only [hname, hsequence, hwildcard, Bool.false_eq_true, if_false]
      exact fieldsOf_bind_eq_error_iff.2 hfails
    | extensionField hname hsequence hextension hbase hfields hfails =>
      simp only [hname, hsequence, hextension]
      exact (extensionOf_eq_error_iff hbase).2 (Or.inl ⟨_, hfields, hfails⟩)
    | extendedBase hname hsequence hextension hbase hfields hbad =>
      simp only [hname, hsequence, hextension]
      exact (extensionOf_eq_error_iff hbase).2 (Or.inr ⟨hfields, hbad, rfl⟩)

/-- A declaration fails with the errors of its faults. -/
theorem Declaration.outcome_eq_error_iff {d : Declaration} {error : Error} :
    d.outcome = .error error ↔ d.Fails error := by
  cases d with
  | element e => rw [outcome, except_map_eq_error_iff, elementTypeOf_eq_error_iff]
  | simpleType e => rw [outcome, except_map_eq_error_iff, simpleTypeOf_eq_error_iff]
  | complexType e => rw [outcome, except_map_eq_error_iff, complexTypeOf_eq_error_iff]

/-- A run that ends in a type is not passed over. -/
theorem result_bind_ok_some_ne {α β : Type} (r : Report Error α) (f : α → β) :
    (r.bind fun a => Report.ok (some (f a))).result ≠ .ok none := by
  simp [except_bind_eq_ok_iff]

/-- An element is passed over for want of a sequence of its own or of a name. -/
theorem elementTypeOf_eq_none_iff {e : Element} :
    (elementTypeOf e).result = .ok none ↔ (Declaration.element e).PassedOver := by
  unfold elementTypeOf
  constructor
  · intro h
    cases hsequence : e.descend? ["complexType", "sequence"] with
    | none => exact .noInlineSequence hsequence
    | some sequence =>
      cases hname : e.attribute? "name" with
      | none => exact .unnamedElement hname
      | some name =>
        rw [hsequence, hname] at h
        exact absurd h (result_bind_ok_some_ne _ _)
  · intro h
    cases h with
    | noInlineSequence hsequence =>
      rw [hsequence]
      rfl
    | unnamedElement hname =>
      rw [hname]
      cases e.descend? ["complexType", "sequence"] <;> rfl

/-- An extension is passed over for want of a base. -/
theorem extensionOf_eq_none_iff {name : String} {extension : Element} :
    (extensionOf name extension).result = .ok none ↔ extension.attribute? "base" = none := by
  unfold extensionOf
  cases extension.attribute? "base" with
  | none => exact iff_of_true rfl rfl
  | some reference => simp [except_bind_eq_ok_iff]

/-- A complex type is passed over for want of a name, or if it has neither a sequence that counts
nor an extension with a base. -/
theorem complexTypeOf_eq_none_iff {e : Element} :
    (complexTypeOf e).result = .ok none ↔ (Declaration.complexType e).PassedOver := by
  unfold complexTypeOf
  constructor
  · intro h
    cases hname : e.attribute? "name" with
    | none => exact .unnamedComplexType hname
    | some name =>
      cases hsequence : e.child? "sequence" with
      | some sequence =>
        rw [hname, hsequence] at h
        cases hwildcard : isWildcardOnly sequence with
        | true => exact .wildcards hsequence hwildcard
        | false =>
          simp only [hwildcard, Bool.false_eq_true, if_false] at h
          exact absurd h (result_bind_ok_some_ne _ _)
      | none =>
        cases hextension : e.descend? ["complexContent", "extension"] with
        | none => exact .noContent hsequence hextension
        | some extension =>
          rw [hname, hsequence, hextension] at h
          exact .noBase hsequence hextension (extensionOf_eq_none_iff.1 h)
  · intro h
    cases hname : e.attribute? "name" with
    | none => rfl
    | some name =>
      cases h with
      | unnamedComplexType hunnamed =>
        rw [hname] at hunnamed
        cases hunnamed
      | wildcards hsequence hwildcard =>
        simp only [hsequence, hwildcard, if_true]
        rfl
      | noBase hsequence hextension hbase =>
        simp only [hsequence, hextension]
        exact extensionOf_eq_none_iff.2 hbase
      | noContent hsequence hextension =>
        simp only [hsequence, hextension]
        rfl

/-- What is passed over is known from the names around it, whatever it holds. -/
theorem Declaration.outcome_eq_none_iff {d : Declaration} :
    d.outcome = .ok none ↔ d.PassedOver := by
  cases d with
  | element e =>
    simp only [outcome, except_map_eq_ok_iff, Option.map_eq_none_iff, exists_eq_right,
      elementTypeOf_eq_none_iff]
  | simpleType e =>
    simp only [outcome, except_map_eq_ok_iff, reduceCtorEq, and_false, exists_false, false_iff]
    nofun
  | complexType e =>
    simp only [outcome, except_map_eq_ok_iff, Option.map_eq_none_iff, exists_eq_right,
      complexTypeOf_eq_none_iff]

/-- An element of a sequence is passed over exactly if it lacks a name or a type. -/
theorem fieldOf_eq_none_iff {e : Element} :
    (fieldOf e).result = .ok none ↔ e.attribute? "name" = none ∨ e.attribute? "type" = none := by
  unfold fieldOf
  cases e.attribute? "name" with
  | none => simp
  | some name =>
    cases e.attribute? "type" with
    | none => simp
    | some reference => simp [except_map_eq_ok_iff]

/-- A schema element fails as the first of its declarations does that fails. -/
theorem failure?_ofSchemaElement (schema : Element) :
    failure? (ofSchemaElement schema).result =
      (declarations schema).findSome? fun d => failure? d.outcome := by
  have helements : failure? (elementTypesOf (schema.childrenNamed "element")).result =
      ((schema.childrenNamed "element").map Declaration.element).findSome?
        fun d => failure? d.outcome := by
    simp [elementTypesOf, Report.failure?_collect, List.findSome?_map, Function.comp_def,
      Declaration.outcome]
  have hsimple : failure? (simpleTypesOf (schema.childrenNamed "simpleType")) =
      ((schema.childrenNamed "simpleType").map Declaration.simpleType).findSome?
        fun d => failure? d.outcome := by
    simp [simpleTypesOf, failure?_mapM, List.findSome?_map, Function.comp_def, Declaration.outcome]
  have hcomplex : failure? (complexTypesOf (schema.childrenNamed "complexType")).result =
      ((schema.childrenNamed "complexType").map Declaration.complexType).findSome?
        fun d => failure? d.outcome := by
    simp [complexTypesOf, Report.failure?_collect, List.findSome?_map, Function.comp_def,
      Declaration.outcome]
  have hlast (ofElements : List ComplexType) (simple : List SimpleType) :
      failure? ((complexTypesOf (schema.childrenNamed "complexType")).result.bind fun named =>
        .ok (⟨simple, ofElements ++ named⟩ : Schema)) =
      failure? (complexTypesOf (schema.childrenNamed "complexType")).result := failure?_bind_ok _ _
  have hlater (ofElements : List ComplexType) := failure?_bind (hlast ofElements)
    (x := simpleTypesOf (schema.childrenNamed "simpleType"))
  rw [declarations, List.findSome?_append, List.findSome?_append, ← helements, ← hsimple,
    ← hcomplex, ← failure?_bind hlater]
  simp [ofSchemaElement, Except.bind]

/-- **When extraction fails.** A description with a schema element fails exactly if one of the
declarations in that element has a fault, and then with the error of the first one, elements before
simple types and these before complex types. A declaration that is passed over has no fault, and
neither has an element of a sequence that is, whatever they hold. -/
theorem ofRoot_error_iff {root schema : Element} (hroot : root.localName = "definitions")
    (hschema : root.descend? ["types", "schema"] = some schema) :
    ((∃ error, (ofRoot root).result = .error error) ↔
      ∃ d ∈ declarations schema, ∃ error, d.Fails error) ∧
    (∀ error, (ofRoot root).result = .error error ↔
      FirstError Declaration.Fails (declarations schema) error) ∧
    (∀ d ∈ declarations schema, (d.PassedOver ↔ d.outcome = .ok none) ∧
      (d.PassedOver → ∀ error, ¬ d.Fails error)) ∧
    ∀ e : Element,
      (e.attribute? "name" = none ∨ e.attribute? "type" = none ↔ (fieldOf e).result = .ok none) ∧
      (e.attribute? "name" = none ∨ e.attribute? "type" = none →
        ∀ error, ¬ FieldFails e error) := by
  have hfirst (error : Error) : (ofRoot root).result = .error error ↔
      FirstError Declaration.Fails (declarations schema) error := by
    have hresult : ofRoot root = ofSchemaElement schema := by
      rw [ofRoot, hroot, beq_self_eq_true, if_pos rfl, hschema]
    rw [hresult, ← failure?_eq_some_iff, failure?_ofSchemaElement]
    exact findSome?_failure?_eq_some_iff fun d _ _ => Declaration.outcome_eq_error_iff
  refine ⟨?_, hfirst,
    fun d _ => ⟨Declaration.outcome_eq_none_iff.symm, fun hpassed error hfails => ?_⟩,
    fun e => ⟨fieldOf_eq_none_iff.symm, fun hpassed error hfails => ?_⟩⟩
  · rw [← exists_firstOf_iff]
    constructor
    · rintro ⟨error, herror⟩
      obtain ⟨d, hd, -⟩ := (hfirst error).1 herror
      exact ⟨d, hd⟩
    · rintro ⟨d, hd⟩
      obtain ⟨error, hfails⟩ := hd.holds
      exact ⟨error, (hfirst error).2 ⟨d, hd, hfails⟩⟩
  · rw [← Declaration.outcome_eq_none_iff] at hpassed
    rw [← Declaration.outcome_eq_error_iff, hpassed] at hfails
    cases hfails
  · rw [← fieldOf_eq_none_iff] at hpassed
    rw [← fieldOf_eq_error_iff, hpassed] at hfails
    cases hfails

/-- An element of a sequence without a name. -/
def namelessField : Element := ⟨"xsd:element", [("type", "other:Unknown")], []⟩

/-- A field of an unknown type. -/
def strayField : Element := ⟨"xsd:element", [("name", "stray"), ("type", "Stray")], []⟩

/-- An element without a name, and with a type of its own that holds a field of an unknown type. -/
def namelessElement : Element :=
  ⟨"xsd:element", [], [⟨"xsd:complexType", [], [⟨"xsd:sequence", [], [strayField]⟩]⟩]⟩

/-- An extension of an unknown base, with a field of an unknown type behind one without a name. -/
def strayExtension : Element :=
  ⟨"xsd:extension", [("base", "Base")], [⟨"xsd:sequence", [], [namelessField, strayField]⟩]⟩

/-- A complex type with this extension. -/
def lateType : Element :=
  ⟨"xsd:complexType", [("name", "Late")], [⟨"xsd:complexContent", [], [strayExtension]⟩]⟩

/-- A schema in which the complex type fails, and the element would if it were not passed over. -/
def straySchema : Element := ⟨"xsd:schema", [], [lateType, namelessElement]⟩

/-- The description that holds this schema. -/
def strayDescription : Element := ⟨"definitions", [], [⟨"types", [], [straySchema]⟩]⟩

/-- The error is that of the field, not that of the base behind it, as `ofRoot_error_iff` says. -/
theorem strayDescription_error :
    strayDescription.localName = "definitions" ∧
      strayDescription.descend? ["types", "schema"] = some straySchema ∧
      (ofRoot strayDescription).result = .error (.unknownReference "Stray") := by
  have hroot : strayDescription.localName = "definitions" := by decide
  have hschema : strayDescription.descend? ["types", "schema"] = some straySchema := rfl
  have hdeclarations : declarations straySchema =
      [.element namelessElement, .complexType lateType] := rfl
  obtain ⟨-, herror, hpassed, hfields⟩ := ofRoot_error_iff hroot hschema
  have hbad : BadReference "Stray" := (resolve_eq_error_iff.1 rfl).1
  have hfield : FieldFails strayField (.unknownReference "Stray") := .type rfl rfl hbad
  have hsequence : SequenceFails ⟨"xsd:sequence", [], [namelessField, strayField]⟩
      (.unknownReference "Stray") := by
    refine ⟨strayField, ⟨[namelessField], [], rfl, ⟨_, hfield⟩, ?_⟩, hfield⟩
    simpa using (hfields namelessField).2 (Or.inl rfl)
  have hlate : (Declaration.complexType lateType).Fails (.unknownReference "Stray") :=
    .extensionField rfl rfl rfl rfl rfl hsequence
  rw [hdeclarations] at herror hpassed
  refine ⟨hroot, hschema, (herror _).2
    ⟨_, ⟨[.element namelessElement], [], rfl, ⟨_, hlate⟩, ?_⟩, hlate⟩⟩
  simpa using (hpassed (.element namelessElement) List.mem_cons_self).2 (.unnamedElement rfl)

end SoapTypes.Schema
