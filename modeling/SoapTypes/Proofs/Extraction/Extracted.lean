import SoapTypes.Proofs.ByteOrder
import SoapTypes.Proofs.Extraction.Declarations

/-!
# What extraction establishes

Every extracted schema is sorted, in two groups for its complex types, and complete: a simple type
has literals or a base, and no reference is empty. This is shown pass by pass.
-/

namespace SoapTypes.Schema

open Xml Text

/-- The conditions on a schema that extraction establishes. -/
structure Extracted (s : Schema) : Prop where
  simpleSorted : ByteSorted SimpleType.name s.simpleTypes
  simpleContent : ∀ t ∈ s.simpleTypes, t.literals ≠ none ∨ t.base ≠ none
  simpleBase : ∀ t ∈ s.simpleTypes, t.base ≠ some ""
  /-- The types of elements, which extend nothing, stand before the named ones, which are sorted. -/
  complexGroups : ∃ ofElements named, s.complexTypes = ofElements ++ named ∧
    (∀ t ∈ ofElements, t.base = none) ∧ ByteSorted ComplexType.name named
  complexBase : ∀ t ∈ s.complexTypes, t.base ≠ some ""
  fieldType : ∀ t ∈ s.complexTypes, ∀ f ∈ t.fields, f.type ≠ ""

theorem resolve_ne_empty {reference name : String} (h : resolve reference = .ok name) :
    name ≠ "" :=
  (resolve_eq_ok_iff.1 h).1

/-- The type of an extracted field is not empty. -/
theorem type_ne_empty_of_fieldsOf {es : List Element} {fields : List Field}
    (h : (fieldsOf es).result = .ok fields) : ∀ f ∈ fields, f.type ≠ "" := by
  intro f hf
  obtain ⟨e, -, he⟩ := Report.exists_of_mem_collect h hf
  obtain ⟨_, _, type, -, -, hresolve, rfl⟩ := fieldOf_eq_some_iff.1 he
  exact resolve_ne_empty hresolve

theorem type_ne_empty_of_sequenceFieldsOf {e : Element} {fields : List Field}
    (h : (sequenceFieldsOf e).result = .ok fields) : ∀ f ∈ fields, f.type ≠ "" := by
  unfold sequenceFieldsOf at h
  cases hsequence : e.child? "sequence" with
  | none =>
    rw [hsequence] at h
    obtain rfl := Except.ok.inj h
    simp
  | some sequence =>
    rw [hsequence] at h
    exact type_ne_empty_of_fieldsOf h

/-- Types of top-level elements extend nothing. -/
theorem complete_of_elementTypesOf {es : List Element} {ts : List ComplexType}
    (h : (elementTypesOf es).result = .ok ts) :
    ∀ t ∈ ts, t.base = none ∧ ∀ f ∈ t.fields, f.type ≠ "" := by
  intro t ht
  obtain ⟨e, -, he⟩ := Report.exists_of_mem_collect h ht
  obtain ⟨name, sequence, fields, -, -, hfields, rfl⟩ := elementTypeOf_eq_some_iff.1 he
  exact ⟨rfl, type_ne_empty_of_fieldsOf hfields⟩

/-- Named complex types come sorted, and no reference in them is empty. -/
theorem complete_of_complexTypesOf {es : List Element} {ts : List ComplexType}
    (h : (complexTypesOf es).result = .ok ts) :
    ByteSorted ComplexType.name ts ∧
      ∀ t ∈ ts, t.base ≠ some "" ∧ ∀ f ∈ t.fields, f.type ≠ "" := by
  obtain ⟨unsorted, hunsorted, rfl⟩ := complexTypesOf_eq_ok_iff.1 h
  refine ⟨byteSorted_mergeSort _ _, fun t ht => ?_⟩
  obtain ⟨e, -, he⟩ := Report.exists_of_mem_collect hunsorted (List.mem_mergeSort.1 ht)
  obtain ⟨name, -, hcontent⟩ := complexTypeOf_eq_some_iff.1 he
  rcases hcontent with ⟨sequence, fields, -, -, hfields, rfl⟩ | ⟨-, extension, -, hextension⟩
  · exact ⟨by simp, type_ne_empty_of_fieldsOf hfields⟩
  · obtain ⟨_, fields, base, -, hfields, hresolve, rfl⟩ := extensionOf_eq_some_iff.1 hextension
    refine ⟨?_, type_ne_empty_of_sequenceFieldsOf hfields⟩
    simpa using resolve_ne_empty hresolve

/-- Simple types come sorted, and each has literals or a base that is not empty. -/
theorem complete_of_simpleTypesOf {es : List Element} {ts : List SimpleType}
    (h : simpleTypesOf es = .ok ts) :
    ByteSorted SimpleType.name ts ∧
      ∀ t ∈ ts, (t.literals ≠ none ∨ t.base ≠ none) ∧ t.base ≠ some "" := by
  obtain ⟨unsorted, hunsorted, rfl⟩ := simpleTypesOf_eq_ok_iff.1 h
  refine ⟨byteSorted_mergeSort _ _, fun t ht => ?_⟩
  obtain ⟨e, -, he⟩ := exists_of_mem_mapM hunsorted (List.mem_mergeSort.1 ht)
  obtain ⟨name, restriction, base, -, -, hbase, hcontent⟩ := simpleTypeOf_eq_ok_iff.1 he
  have hempty : base ≠ some "" := by
    rcases resolve?_eq_ok_iff.1 hbase with ⟨-, rfl⟩ | ⟨_, name, -, hresolve, rfl⟩
    · simp
    · simpa using resolve_ne_empty hresolve
  rcases hcontent with ⟨-, rfl⟩ | ⟨-, hsome, rfl⟩
  · exact ⟨Or.inl (by simp), hempty⟩
  · exact ⟨Or.inr hsome, hempty⟩

/-- Each condition comes from the pass that makes the types in question; the two groups of complex
types are those of the concatenation. -/
theorem extracted_of_ofRoot {root : Element} {s : Schema} (h : (ofRoot root).result = .ok s) :
    s.Extracted := by
  obtain ⟨-, schema, -, hschema⟩ := ofRoot_eq_ok_iff.1 h
  obtain ⟨ofElements, simple, named, helements, hsimple, hnamed, rfl⟩ :=
    ofSchemaElement_eq_ok_iff.1 hschema
  have helements := complete_of_elementTypesOf helements
  obtain ⟨hsimpleSorted, hsimple⟩ := complete_of_simpleTypesOf hsimple
  obtain ⟨hnamedSorted, hnamed⟩ := complete_of_complexTypesOf hnamed
  refine ⟨hsimpleSorted, fun t ht => (hsimple t ht).1, fun t ht => (hsimple t ht).2,
    ⟨ofElements, named, rfl, fun t ht => (helements t ht).1, hnamedSorted⟩,
    fun t ht => ?_, fun t ht => ?_⟩
  · rcases List.mem_append.1 ht with ht | ht
    · simp [(helements t ht).1]
    · exact (hnamed t ht).1
  · rcases List.mem_append.1 ht with ht | ht
    · exact (helements t ht).2
    · exact (hnamed t ht).2

end SoapTypes.Schema
