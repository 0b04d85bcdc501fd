import SoapTypes.Proofs.Extraction.Failure
import SoapTypes.Proofs.Extraction.Reordering

/-!
# What fields and types are recorded from

The fields of a complex type stand beside the elements of a sequence that have a name and a type, in
order. The complex types of a schema are those that its declarations give.
-/

namespace SoapTypes.Schema

open Xml

/-- Whether an element of a sequence has what a field needs: a name and a type. -/
def recordsField (e : Element) : Bool :=
  (e.attribute? "name").isSome && (e.attribute? "type").isSome

/-- The elements of a sequence that may be missing. -/
def elementsOf (sequence : Option Element) : List Element :=
  sequence.elim [] (·.childrenNamed "element")

/-- The elements that a declaration lists in its own sequence or, failing that, in the sequence of
its extension. -/
def Declaration.listed : Declaration → List Element
  | element e => elementsOf (e.descend? ["complexType", "sequence"])
  | simpleType _ => []
  | complexType e => elementsOf ((e.child? "sequence").or
      ((e.descend? ["complexContent", "extension"]).bind (·.child? "sequence")))

/-- The fields of a sequence stand beside the elements that record them. -/
theorem forall₂_of_fieldsOf {es : List Element} {fields : List Field}
    (h : (fieldsOf es).result = .ok fields) :
    List.Forall₂ (fun e f => (fieldOf e).result = .ok (some f)) (es.filter recordsField)
      fields := by
  refine Report.forall₂_filter_of_collect h fun e _ o ho => ?_
  cases o with
  | none =>
    rcases fieldOf_eq_none_iff.1 ho with hname | htype
    · simp [recordsField, hname]
    · simp [recordsField, htype]
  | some f =>
    obtain ⟨_, _, _, hname, htype, -, -⟩ := fieldOf_eq_some_iff.1 ho
    simp [recordsField, hname, htype]

namespace Declaration

theorem outcome_element_iff {e : Element} {t : ComplexType} :
    (element e).outcome = .ok (some (.inr t)) ↔ (elementTypeOf e).result = .ok (some t) := by
  simp [outcome, except_map_eq_ok_iff]

theorem outcome_complexType_iff {e : Element} {t : ComplexType} :
    (complexType e).outcome = .ok (some (.inr t)) ↔ (complexTypeOf e).result = .ok (some t) := by
  simp [outcome, except_map_eq_ok_iff]

theorem outcome_simpleType_ne {e : Element} {t : ComplexType} :
    (simpleType e).outcome ≠ .ok (some (.inr t)) := by
  simp [outcome, except_map_eq_ok_iff]

end Declaration

/-- The fields of the type that a declaration gives stand beside the elements that it lists. -/
theorem Declaration.forall₂_fields {d : Declaration} {t : ComplexType}
    (h : d.outcome = .ok (some (.inr t))) :
    List.Forall₂ (fun e f => (fieldOf e).result = .ok (some f)) (d.listed.filter recordsField)
      t.fields := by
  cases d with
  | element e =>
    obtain ⟨_, sequence, fields, -, hsequence, hfields, rfl⟩ :=
      elementTypeOf_eq_some_iff.1 (outcome_element_iff.1 h)
    rw [listed, hsequence]
    exact forall₂_of_fieldsOf hfields
  | simpleType e => exact absurd h outcome_simpleType_ne
  | complexType e =>
    obtain ⟨name, -, ⟨sequence, fields, hsequence, -, hfields, rfl⟩ |
      ⟨hsequence, extension, hextension, htype⟩⟩ :=
        complexTypeOf_eq_some_iff.1 (outcome_complexType_iff.1 h)
    · rw [listed, hsequence, Option.some_or]
      exact forall₂_of_fieldsOf hfields
    · obtain ⟨_, fields, _, -, hfields, -, rfl⟩ := extensionOf_eq_some_iff.1 htype
      rw [listed, hsequence, hextension, Option.none_or, Option.bind_some]
      unfold sequenceFieldsOf at hfields
      cases hinner : extension.child? "sequence" with
      | none =>
        rw [hinner] at hfields
        obtain rfl := Except.ok.inj hfields
        exact .nil
      | some sequence =>
        rw [hinner] at hfields
        exact forall₂_of_fieldsOf hfields

/-- The complex types of a schema are those that its declarations give. -/
theorem mem_complexTypes_iff {schema : Element} {s : Schema}
    (h : (ofSchemaElement schema).result = .ok s) {t : ComplexType} :
    t ∈ s.complexTypes ↔ ∃ d ∈ declarations schema, d.outcome = .ok (some (.inr t)) := by
  obtain ⟨ofElements, simple, named, helements, -, hnamed, rfl⟩ := ofSchemaElement_eq_ok_iff.1 h
  obtain ⟨unsorted, hunsorted, rfl⟩ := complexTypesOf_eq_ok_iff.1 hnamed
  rw [List.mem_append, List.mem_mergeSort]
  constructor
  · rintro (ht | ht)
    · obtain ⟨e, he, htype⟩ := Report.exists_of_mem_collect helements ht
      exact ⟨.element e, by simp [declarations, he], Declaration.outcome_element_iff.2 htype⟩
    · obtain ⟨e, he, htype⟩ := Report.exists_of_mem_collect hunsorted ht
      exact ⟨.complexType e, by simp [declarations, he],
        Declaration.outcome_complexType_iff.2 htype⟩
  · rintro ⟨d, hd, houtcome⟩
    cases d with
    | element e =>
      have he : e ∈ schema.childrenNamed "element" := by simpa [declarations] using hd
      exact Or.inl (Report.mem_of_collect helements he
        (Declaration.outcome_element_iff.1 houtcome))
    | simpleType e => exact absurd houtcome Declaration.outcome_simpleType_ne
    | complexType e =>
      have he : e ∈ schema.childrenNamed "complexType" := by simpa [declarations] using hd
      exact Or.inr (Report.mem_of_collect hunsorted he
        (Declaration.outcome_complexType_iff.1 houtcome))

/-- Each `simpleType` element gives a simple type. -/
theorem exists_simpleTypeOf_of_declared {schema : Element} {s : Schema}
    (h : (ofSchemaElement schema).result = .ok s) {e : Element}
    (he : e ∈ schema.childrenNamed "simpleType") : ∃ t ∈ s.simpleTypes, simpleTypeOf e = .ok t := by
  obtain ⟨_, simple, _, -, hsimple, -, rfl⟩ := ofSchemaElement_eq_ok_iff.1 h
  obtain ⟨unsorted, hunsorted, rfl⟩ := simpleTypesOf_eq_ok_iff.1 hsimple
  obtain ⟨t, ht, htype⟩ := exists_mem_of_mapM hunsorted he
  exact ⟨t, List.mem_mergeSort.2 ht, htype⟩

/-- Each named `simpleType` element gives a simple type of its name. -/
theorem exists_simpleType_of_declared {schema : Element} {s : Schema}
    (h : (ofSchemaElement schema).result = .ok s) {e : Element}
    (he : e ∈ schema.childrenNamed "simpleType") {name : String}
    (hname : e.attribute? "name" = some name) : ∃ t ∈ s.simpleTypes, t.name = name := by
  obtain ⟨t, ht, htype⟩ := exists_simpleTypeOf_of_declared h he
  exact ⟨t, ht, Option.some.inj ((name_simpleTypeOf htype).symm.trans hname)⟩

end SoapTypes.Schema
