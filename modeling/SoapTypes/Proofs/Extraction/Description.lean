import Mathlib.Data.List.TakeWhile
import SoapTypes.Proofs.Extraction.Extracted

/-!
# Descriptions of schemas

A description is written for a schema whose complex types are given in two groups. Extraction gives
the schema back if it meets the conditions of `Extracted`, so these say exactly which schemas
extraction can give.
-/

namespace SoapTypes

open Xml Text

/-- The element of a sequence that declares a field. -/
def Field.description (f : Field) : Element :=
  { name := "element"
    attributes := ("name", f.name) :: ("type", "tns:" ++ f.type) ::
      ((if f.isArray then [("maxOccurs", "unbounded")] else []) ++
        if f.isOptional then [("minOccurs", "0")] else []) }

namespace ComplexType

/-- The sequence that declares the fields of a type. -/
def sequenceDescription (t : ComplexType) : Element :=
  { name := "sequence", children := t.fields.map Field.description }

/-- The top-level element that declares a type without a base. -/
def inlineDescription (t : ComplexType) : Element :=
  { name := "element"
    attributes := [("name", t.name)]
    children := [{ name := "complexType", children := [t.sequenceDescription] }] }

/-- The named complex type that declares a type, an extension if it has a base. -/
def description (t : ComplexType) : Element :=
  { name := "complexType"
    attributes := [("name", t.name)]
    children :=
      match t.base with
      | none => [t.sequenceDescription]
      | some base =>
        [{ name := "complexContent"
           children := [{ name := "extension"
                          attributes := [("base", "tns:" ++ base)]
                          children := [t.sequenceDescription] }] }] }

end ComplexType

/-- The enumeration that declares literals. One without a value stands before them, so that there
is an enumeration also if there are no literals. -/
def enumerationDescription (literals : List String) : List Element :=
  { name := "enumeration" } ::
    literals.map fun l => { name := "enumeration", attributes := [("value", l)] }

/-- The simple type that declares an alias or a set of literals. -/
def SimpleType.description (t : SimpleType) : Element :=
  { name := "simpleType"
    attributes := [("name", t.name)]
    children :=
      [{ name := "restriction"
         attributes := (t.base.map fun base => ("base", "tns:" ++ base)).toList
         children := (t.literals.map enumerationDescription).getD [] }] }

namespace Schema

/-- The document that declares complex types by elements and by name, and simple types. -/
def description (ofElements named : List ComplexType) (simple : List SimpleType) : Element :=
  { name := "definitions"
    children := [{ name := "types"
                   children := [{ name := "schema"
                                  children := ofElements.map ComplexType.inlineDescription ++
                                    named.map ComplexType.description ++
                                    simple.map SimpleType.description }] }] }

/-- A name without a colon is its own local part. -/
theorem localName_eq {e : Element} {name : String} (hname : e.name = name)
    (hcolon : ':' ∉ name.toList) : e.localName = name := by
  have hall : ∀ c ∈ name.toList.reverse, (c != ':') = true := by
    intro c hc
    rw [bne_iff_ne]
    rintro rfl
    exact hcolon (List.mem_reverse.1 hc)
  rw [Element.localName, hname, localPart, List.takeWhile_eq_self_iff.2 hall, List.reverse_reverse,
    String.ofList_toList]

theorem localName_fieldDescription (f : Field) : f.description.localName = "element" :=
  localName_eq rfl (by decide)

theorem localName_sequenceDescription (t : ComplexType) :
    t.sequenceDescription.localName = "sequence" :=
  localName_eq rfl (by decide)

theorem localName_inlineDescription (t : ComplexType) :
    t.inlineDescription.localName = "element" :=
  localName_eq rfl (by decide)

theorem localName_complexDescription (t : ComplexType) :
    t.description.localName = "complexType" :=
  localName_eq rfl (by decide)

theorem localName_simpleDescription (t : SimpleType) :
    t.description.localName = "simpleType" :=
  localName_eq rfl (by decide)

/-- An only child is found under its local name. -/
theorem child?_of_localName_eq {e child : Element} {name : String} (he : e.children = [child])
    (hname : child.localName = name) : e.child? name = some child := by
  rw [Element.child?, he, List.find?_cons, hname, beq_self_eq_true]

/-- An only child is not found under another local name. -/
theorem child?_of_localName_ne {e child : Element} {name : String} (he : e.children = [child])
    (hname : child.localName ≠ name) : e.child? name = none := by
  rw [Element.child?, he, List.find?_cons, beq_eq_false_iff_ne.2 hname, List.find?_nil]

/-- Going down two levels of only children. -/
theorem descend?_of_localName_eq {e child grandchild : Element} {name name' : String}
    (he : e.children = [child]) (hname : child.localName = name)
    (hchild : child.children = [grandchild]) (hname' : grandchild.localName = name') :
    e.descend? [name, name'] = some grandchild := by
  simp only [Element.descend?, child?_of_localName_eq he hname, Option.bind_some,
    child?_of_localName_eq hchild hname']

/-- Of elements of one local name all are found under it and none under another one. -/
theorem filter_localName_map {α : Type} {g : α → Element} {name : String}
    (h : ∀ a, (g a).localName = name) (as : List α) (sought : String) :
    (as.map g).filter (·.localName == sought) = if name = sought then as.map g else [] := by
  by_cases hname : name = sought
  · rw [if_pos hname, List.filter_eq_self]
    intro e he
    obtain ⟨a, -, rfl⟩ := List.mem_map.1 he
    rw [h, hname, beq_self_eq_true]
  · rw [if_neg hname, List.filter_eq_nil_iff]
    intro e he
    obtain ⟨a, -, rfl⟩ := List.mem_map.1 he
    rwa [h, beq_iff_eq]

/-- A name behind a known prefix is found again unless it is empty. -/
theorem resolve_prefixed {name : String} (h : name ≠ "") : resolve ("tns:" ++ name) = .ok name :=
  resolve_eq_ok_iff.2 ⟨h, Or.inr rfl⟩

theorem fieldOf_description {f : Field} (h : f.type ≠ "") :
    (fieldOf f.description).result = .ok (some f) := by
  refine fieldOf_eq_some_iff.2 ⟨f.name, "tns:" ++ f.type, f.type, rfl, rfl, resolve_prefixed h, ?_⟩
  rcases f with ⟨name, type, isArray, isOptional⟩
  cases isArray <;> cases isOptional <;> rfl

theorem fieldsOf_sequenceDescription {t : ComplexType} (h : ∀ f ∈ t.fields, f.type ≠ "") :
    (fieldsOf (t.sequenceDescription.childrenNamed "element")).result = .ok t.fields := by
  have helements : t.sequenceDescription.childrenNamed "element" = t.fields.map Field.description :=
    filter_localName_map localName_fieldDescription t.fields "element"
  rw [helements]
  exact Report.collect_map_eq_ok fun f hf => fieldOf_description (h f hf)

/-- A described sequence holds no wildcards. -/
theorem isWildcardOnly_sequenceDescription (t : ComplexType) :
    isWildcardOnly t.sequenceDescription = false := by
  have hany : t.sequenceDescription.childrenNamed "any" = [] :=
    filter_localName_map localName_fieldDescription t.fields "any"
  simp [isWildcardOnly, hany]

theorem elementTypeOf_inlineDescription {t : ComplexType} (hbase : t.base = none)
    (h : ∀ f ∈ t.fields, f.type ≠ "") :
    (elementTypeOf t.inlineDescription).result = .ok (some t) := by
  have hsequence : t.inlineDescription.descend? ["complexType", "sequence"] =
      some t.sequenceDescription :=
    descend?_of_localName_eq rfl (localName_eq rfl (by decide)) rfl
      (localName_sequenceDescription t)
  refine elementTypeOf_eq_some_iff.2
    ⟨t.name, t.sequenceDescription, t.fields, rfl, hsequence, fieldsOf_sequenceDescription h, ?_⟩
  rw [← hbase]

theorem complexTypeOf_description {t : ComplexType} (hbase : t.base ≠ some "")
    (h : ∀ f ∈ t.fields, f.type ≠ "") : (complexTypeOf t.description).result = .ok (some t) := by
  obtain ⟨name, base, fields⟩ := t
  refine complexTypeOf_eq_some_iff.2 ⟨name, rfl, ?_⟩
  cases base with
  | none =>
    refine Or.inl ⟨_, fields, child?_of_localName_eq rfl (localName_sequenceDescription _),
      isWildcardOnly_sequenceDescription _, fieldsOf_sequenceDescription h, rfl⟩
  | some base =>
    refine Or.inr ⟨child?_of_localName_ne rfl ?_, _,
      descend?_of_localName_eq rfl (localName_eq rfl (by decide)) rfl
        (localName_eq rfl (by decide)), ?_⟩
    · rw [localName_eq (rfl : _ = "complexContent") (by decide)]
      decide
    · refine extensionOf_eq_some_iff.2
        ⟨"tns:" ++ base, fields, base, rfl, ?_, resolve_prefixed (by simpa using hbase), rfl⟩
      unfold sequenceFieldsOf
      rw [child?_of_localName_eq rfl (localName_sequenceDescription _)]
      exact fieldsOf_sequenceDescription h

/-- The described literals are the values found, in their order. -/
theorem filterMap_enumerationDescription (literals : List String) :
    (enumerationDescription literals).filterMap (·.attribute? "value") = literals := by
  rw [enumerationDescription, List.filterMap_cons_none rfl, List.filterMap_map]
  exact List.filterMap_some

/-- All children that describe literals are enumerations. -/
theorem childrenNamed_enumeration {e : Element} {literals : List String}
    (he : e.children = enumerationDescription literals) :
    e.childrenNamed "enumeration" = enumerationDescription literals := by
  rw [Element.childrenNamed, he, List.filter_eq_self]
  intro child hchild
  have hname : child.name = "enumeration" := by
    rcases List.mem_cons.1 hchild with rfl | hchild
    · rfl
    · obtain ⟨l, -, rfl⟩ := List.mem_map.1 hchild
      rfl
  rw [localName_eq hname (by decide), beq_self_eq_true]

theorem simpleTypeOf_description {t : SimpleType} (hcontent : t.literals ≠ none ∨ t.base ≠ none)
    (hbase : t.base ≠ some "") : simpleTypeOf t.description = .ok t := by
  obtain ⟨name, base, literals⟩ := t
  refine simpleTypeOf_eq_ok_iff.2 ⟨name, _, base, rfl,
    child?_of_localName_eq rfl (localName_eq rfl (by decide)), ?_, ?_⟩
  · cases base with
    | none => rfl
    | some base =>
      exact resolve?_eq_ok_iff.2
        (Or.inr ⟨"tns:" ++ base, base, rfl, resolve_prefixed (by simpa using hbase), rfl⟩)
  · cases literals with
    | none => exact Or.inr ⟨rfl, by simpa using hcontent, rfl⟩
    | some literals =>
      refine Or.inl ?_
      rw [childrenNamed_enumeration rfl, filterMap_enumerationDescription]
      exact ⟨List.cons_ne_nil _ _, rfl⟩

/-- The schema element of a description holds the three groups of declarations. -/
theorem exists_schema_of_description (ofElements named : List ComplexType)
    (simple : List SimpleType) :
    ∃ schema, (description ofElements named simple).descend? ["types", "schema"] = some schema ∧
      schema.childrenNamed "element" = ofElements.map ComplexType.inlineDescription ∧
      schema.childrenNamed "complexType" = named.map ComplexType.description ∧
      schema.childrenNamed "simpleType" = simple.map SimpleType.description := by
  refine ⟨_, descend?_of_localName_eq rfl (localName_eq rfl (by decide)) rfl
    (localName_eq rfl (by decide)), ?_, ?_, ?_⟩ <;>
  simp [Element.childrenNamed, List.filter_append, filter_localName_map localName_inlineDescription,
    filter_localName_map localName_complexDescription,
    filter_localName_map localName_simpleDescription]

/-- Extraction undoes description. The groups that are sorted stay as they are. -/
theorem ofRoot_description {ofElements named : List ComplexType} {simple : List SimpleType}
    (h : Extracted ⟨simple, ofElements ++ named⟩) (hbase : ∀ t ∈ ofElements, t.base = none)
    (hsorted : ByteSorted ComplexType.name named) :
    (ofRoot (description ofElements named simple)).result = .ok ⟨simple, ofElements ++ named⟩ := by
  obtain ⟨schema, hschema, helements, hnamed, hsimple⟩ :=
    exists_schema_of_description ofElements named simple
  refine ofRoot_eq_ok_iff.2 ⟨localName_eq rfl (by decide), schema, hschema,
    ofSchemaElement_eq_ok_iff.2 ⟨ofElements, simple, named, ?_, ?_, ?_, rfl⟩⟩
  · rw [helements]
    exact Report.collect_map_eq_ok fun t ht => elementTypeOf_inlineDescription (hbase t ht)
      (h.fieldType t (List.mem_append_left named ht))
  · rw [hsimple]
    exact simpleTypesOf_eq_ok_iff.2 ⟨simple,
      mapM_map_eq_ok fun t ht => simpleTypeOf_description (h.simpleContent t ht)
        (h.simpleBase t ht), h.simpleSorted.mergeSort_eq⟩
  · rw [hnamed]
    exact complexTypesOf_eq_ok_iff.2 ⟨named,
      Report.collect_map_eq_ok fun t ht =>
        have hmem := List.mem_append_right ofElements ht
        complexTypeOf_description (h.complexBase t hmem) (h.fieldType t hmem),
      hsorted.mergeSort_eq⟩

/-- **The image of extraction.** A schema is extracted from some document exactly if it meets the
conditions of `Extracted`. -/
theorem exists_ofRoot_iff_extracted (s : Schema) :
    (∃ root, (ofRoot root).result = .ok s) ↔ s.Extracted := by
  constructor
  · rintro ⟨root, h⟩
    exact extracted_of_ofRoot h
  · intro h
    obtain ⟨ofElements, named, hgroups, hbase, hsorted⟩ := h.complexGroups
    obtain ⟨simple, complex⟩ := s
    obtain rfl : complex = ofElements ++ named := hgroups
    exact ⟨_, ofRoot_description h hbase hsorted⟩

end Schema

end SoapTypes
