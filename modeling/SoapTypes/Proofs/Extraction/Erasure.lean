import Mathlib.Data.List.TakeWhile
import SoapTypes.Proofs.Extraction.Declarations

/-!
# What extraction reads

Erasure leaves of a document only what the schema subset names: local names of elements, elements
with one of eleven local names, and the first occurrences of six attributes. Each way to look at an
element commutes with it, so every pass gives the same outcome on an erased element. Extraction
cannot tell two documents apart that have the same erasure.
-/

namespace SoapTypes

namespace Xml

/-- The attributes that a schema is made of. -/
def schemaAttributes : List String :=
  ["name", "base", "value", "type", "minOccurs", "maxOccurs"]

/-- The local names of the elements that a schema is made of. -/
def schemaElements : List String :=
  ["types", "schema", "element", "complexType", "simpleType", "restriction", "enumeration",
    "sequence", "complexContent", "extension", "any"]

/-- The attributes that a schema is made of, each where its key occurs first. The keys in `seen`
have occurred before. -/
def eraseAttributes (seen : List String) : List Attribute → List Attribute
  | [] => []
  | (key, value) :: rest =>
    if key ∈ schemaAttributes ∧ key ∉ seen then (key, value) :: eraseAttributes (key :: seen) rest
    else eraseAttributes seen rest

mutual

/-- An element without prefixes and without what a schema is not made of, at every depth. The
element itself is kept whatever its name is. -/
def Element.erase : Element → Element
  | ⟨name, attributes, children⟩ =>
    ⟨localPart name, eraseAttributes [] attributes, eraseChildren children⟩

/-- The elements that a schema is made of, erased. -/
def eraseChildren : List Element → List Element
  | [] => []
  | e :: es =>
    if e.localName ∈ schemaElements then e.erase :: eraseChildren es else eraseChildren es

end

theorem eraseChildren_eq (es : List Element) :
    eraseChildren es = (es.filter (·.localName ∈ schemaElements)).map Element.erase := by
  induction es with
  | nil => rfl
  | cons e es ih =>
    by_cases he : e.localName ∈ schemaElements
    · simp [eraseChildren, he, ih]
    · simp [eraseChildren, he, ih]

/-- A local part has no prefix of its own. -/
theorem localPart_localPart (qualified : String) :
    localPart (localPart qualified) = localPart qualified := by
  simp only [localPart, String.toList_ofList, List.reverse_reverse, List.takeWhile_idem]

/-- Dropping other keys and repetitions does not change the first value of a key. -/
theorem lookup_eraseAttributes {key : String} {seen : List String} (attributes : List Attribute)
    (hkey : key ∈ schemaAttributes) (hseen : key ∉ seen) :
    (eraseAttributes seen attributes).lookup key = attributes.lookup key := by
  induction attributes generalizing seen with
  | nil => rfl
  | cons first rest ih =>
    obtain ⟨key', value⟩ := first
    by_cases heq : key = key'
    · subst heq
      rw [eraseAttributes, if_pos ⟨hkey, hseen⟩, List.lookup_cons_self, List.lookup_cons_self]
    · have hne : (key == key') = false := beq_eq_false_iff_ne.2 heq
      rw [eraseAttributes, List.lookup_cons, hne]
      split
      · rw [List.lookup_cons, hne]
        exact ih (by simp [heq, hseen])
      · exact ih hseen

namespace Element

@[simp] theorem localName_erase (e : Element) : e.erase.localName = e.localName := by
  cases e
  exact localPart_localPart _

/-- The attributes that a schema is made of keep their values. -/
theorem attribute?_erase (e : Element) (key : String) (hkey : key ∈ schemaAttributes) :
    e.erase.attribute? key = e.attribute? key := by
  cases e
  exact lookup_eraseAttributes _ hkey List.not_mem_nil

/-- The children of a name that a schema is made of are found again. -/
theorem childrenNamed_erase (e : Element) (name : String) (hname : name ∈ schemaElements) :
    e.erase.childrenNamed name = (e.childrenNamed name).map erase := by
  obtain ⟨_, _, children⟩ := e
  change (eraseChildren children).filter (·.localName == name) =
    (children.filter (·.localName == name)).map erase
  rw [eraseChildren_eq, List.filter_map, List.filter_filter]
  refine congrArg (List.map erase) (List.filter_congr fun child _ => ?_)
  by_cases hchild : child.localName = name
  · simp [hchild, hname]
  · simp [hchild]

/-- The first child of a name that a schema is made of is found again. -/
theorem child?_erase (e : Element) (name : String) (hname : name ∈ schemaElements) :
    e.erase.child? name = (e.child? name).map erase := by
  have hfirst (e : Element) : e.child? name = (e.childrenNamed name).head? :=
    List.head?_filter.symm
  rw [hfirst, hfirst, e.childrenNamed_erase name hname, List.head?_map]

/-- A path of names that a schema is made of leads to the same place. -/
theorem descend?_erase (e : Element) (path : List String)
    (hpath : ∀ name ∈ path, name ∈ schemaElements) :
    e.erase.descend? path = (e.descend? path).map erase := by
  induction path generalizing e with
  | nil => rfl
  | cons name path ih =>
    rw [List.forall_mem_cons] at hpath
    rw [descend?, descend?, e.child?_erase name hpath.1]
    cases e.child? name with
    | none => rfl
    | some child => exact ih child hpath.2

end Element

end Xml

namespace Schema

open Xml

/-- The values of an enumeration are found again. -/
theorem filterMap_value_erase (values : List Element) :
    (values.map Element.erase).filterMap (·.attribute? "value") =
      values.filterMap (·.attribute? "value") := by
  rw [List.filterMap_map]
  exact List.filterMap_congr fun value _ => value.attribute?_erase "value" (by decide)

theorem simpleTypeOf_erase (e : Element) : simpleTypeOf e.erase = simpleTypeOf e := by
  unfold simpleTypeOf
  rw [e.attribute?_erase "name" (by decide), e.child?_erase "restriction" (by decide)]
  cases e.attribute? "name" with
  | none => rfl
  | some name =>
    cases e.child? "restriction" with
    | none => rfl
    | some restriction =>
      simp only [Option.map_some, restriction.attribute?_erase "base" (by decide),
        restriction.childrenNamed_erase "enumeration" (by decide)]
      refine congrArg _ (funext fun base => ?_)
      have hvalues := filterMap_value_erase (restriction.childrenNamed "enumeration")
      cases hlist : restriction.childrenNamed "enumeration" with
      | nil => rfl
      | cons value values =>
        rw [hlist] at hvalues
        simpa using hvalues

/-- A field is told apart by four attributes; a fifth occurs in a notice only. -/
theorem fieldOf_erase (e : Element) : (fieldOf e.erase).result = (fieldOf e).result := by
  unfold fieldOf
  rw [e.attribute?_erase "name" (by decide), e.attribute?_erase "type" (by decide),
    e.attribute?_erase "maxOccurs" (by decide), e.attribute?_erase "minOccurs" (by decide)]
  cases e.attribute? "name" with
  | none => rfl
  | some name =>
    cases e.attribute? "type" with
    | none => rfl
    | some type => rfl

/-- The fields of a sequence are found again. -/
theorem fieldsOf_erase (sequence : Element) :
    (fieldsOf (sequence.erase.childrenNamed "element")).result =
      (fieldsOf (sequence.childrenNamed "element")).result := by
  rw [sequence.childrenNamed_erase "element" (by decide)]
  exact Report.collect_map_result fieldOf_erase _

theorem sequenceFieldsOf_erase (e : Element) :
    (sequenceFieldsOf e.erase).result = (sequenceFieldsOf e).result := by
  unfold sequenceFieldsOf
  rw [e.child?_erase "sequence" (by decide)]
  cases e.child? "sequence" with
  | none => rfl
  | some sequence => exact fieldsOf_erase sequence

theorem isWildcardOnly_erase (sequence : Element) :
    isWildcardOnly sequence.erase = isWildcardOnly sequence := by
  rw [isWildcardOnly, sequence.childrenNamed_erase "element" (by decide),
    sequence.childrenNamed_erase "any" (by decide), List.isEmpty_map, List.isEmpty_map,
    isWildcardOnly]

theorem extensionOf_erase (name : String) (extension : Element) :
    (extensionOf name extension.erase).result = (extensionOf name extension).result := by
  unfold extensionOf
  rw [extension.attribute?_erase "base" (by decide)]
  cases extension.attribute? "base" with
  | none => rfl
  | some reference =>
    simp only [Report.bind_eq_bind, Report.result_bind, sequenceFieldsOf_erase]

theorem complexTypeOf_erase (e : Element) :
    (complexTypeOf e.erase).result = (complexTypeOf e).result := by
  unfold complexTypeOf
  rw [e.attribute?_erase "name" (by decide), e.child?_erase "sequence" (by decide),
    e.descend?_erase ["complexContent", "extension"] (by decide)]
  cases e.attribute? "name" with
  | none => rfl
  | some name =>
    cases e.child? "sequence" with
    | some sequence =>
      simp only [Option.map_some, isWildcardOnly_erase]
      cases isWildcardOnly sequence with
      | true => rfl
      | false =>
        simp only [Bool.false_eq_true, if_false, Report.bind_eq_bind, Report.result_bind,
          fieldsOf_erase]
    | none =>
      cases e.descend? ["complexContent", "extension"] with
      | none => rfl
      | some extension => exact extensionOf_erase name extension

theorem elementTypeOf_erase (e : Element) :
    (elementTypeOf e.erase).result = (elementTypeOf e).result := by
  unfold elementTypeOf
  rw [e.attribute?_erase "name" (by decide),
    e.descend?_erase ["complexType", "sequence"] (by decide)]
  cases e.descend? ["complexType", "sequence"] with
  | none => rfl
  | some sequence =>
    cases e.attribute? "name" with
    | none => rfl
    | some name =>
      simp only [Option.map_some, Report.bind_eq_bind, Report.result_bind, fieldsOf_erase]

theorem ofSchemaElement_erase (schema : Element) :
    (ofSchemaElement schema.erase).result = (ofSchemaElement schema).result := by
  have helements := Report.collect_map_result elementTypeOf_erase (schema.childrenNamed "element")
  have hcomplex :=
    Report.collect_map_result complexTypeOf_erase (schema.childrenNamed "complexType")
  have hsimple : ((schema.childrenNamed "simpleType").map Element.erase).mapM simpleTypeOf =
      (schema.childrenNamed "simpleType").mapM simpleTypeOf := by
    rw [List.mapM_map]
    exact congrArg (List.mapM · _) (funext simpleTypeOf_erase)
  simp only [ofSchemaElement, Report.bind_eq_bind, Report.result_bind, Report.result_tell,
    Report.result_ofExcept, elementTypesOf, simpleTypesOf, complexTypesOf,
    schema.childrenNamed_erase "element" (by decide),
    schema.childrenNamed_erase "simpleType" (by decide),
    schema.childrenNamed_erase "complexType" (by decide), helements, hcomplex, hsimple]

/-- **Extraction reads nothing else.** A document gives the same schema, or the same error, as its
erasure. So documents that have the same erasure, such as those that differ in prefixes,
annotations or other attributes only, give the same. -/
theorem ofRoot_erase (root : Element) :
    (ofRoot root.erase).result = (ofRoot root).result ∧
      ∀ other : Element, root.erase = other.erase →
        (ofRoot root).result = (ofRoot other).result := by
  have hsame (root : Element) : (ofRoot root.erase).result = (ofRoot root).result := by
    unfold ofRoot
    rw [root.localName_erase, root.descend?_erase ["types", "schema"] (by decide)]
    split
    · cases root.descend? ["types", "schema"] with
      | none => rfl
      | some schema => exact ofSchemaElement_erase schema
    · rfl
  refine ⟨hsame root, fun other herase => ?_⟩
  calc
    (ofRoot root).result = (ofRoot root.erase).result := (hsame root).symm
    _ = (ofRoot other.erase).result := by rw [herase]
    _ = (ofRoot other).result := hsame other

/-- A description of one type. -/
def plainDescription : Element :=
  ⟨"definitions", [], [⟨"types", [], [⟨"schema", [], [⟨"simpleType", [("name", "Id")],
    [⟨"restriction", [("base", "xsd:string")], []⟩]⟩]⟩]⟩]⟩

/-- The same with prefixes, an annotation, and an attribute that says nothing. -/
def ornateDescription : Element :=
  ⟨"w:definitions", [("xmlns", "w")], [⟨"types", [], [⟨"x:schema", [], [⟨"x:simpleType",
    [("name", "Id")], [⟨"annotation", [], [⟨"text", [], []⟩]⟩,
      ⟨"x:restriction", [("base", "xsd:string")], []⟩]⟩]⟩]⟩]⟩

/-- The ornaments make no difference to the schema. -/
theorem ornateDescription_ofRoot :
    ornateDescription.erase = plainDescription.erase ∧
      (ofRoot ornateDescription).result = (ofRoot plainDescription).result := by
  have herase : ornateDescription.erase = plainDescription.erase := by rfl
  exact ⟨herase, (ofRoot_erase ornateDescription).2 plainDescription herase⟩

end Schema

end SoapTypes
