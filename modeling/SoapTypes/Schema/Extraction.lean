import SoapTypes.Report
import SoapTypes.Schema.Basic
import SoapTypes.Schema.Error
import SoapTypes.Xml.Element

/-!
# Extraction of a schema

The schema of a service description stands at `definitions/types/schema`. Three kinds of its
children declare types: simple types that restrict another type, named complex types, and
elements with a complex type of their own. What declares no usable type is passed over, mostly
with a notice; a reference with an unknown prefix and a simple type without content are errors.
-/

namespace SoapTypes.Schema

open Xml

/-- The namespace prefixes that a type reference may carry. -/
def referencePrefixes : List String := ["xsd", "tns"]

/-- The name in a type reference: what follows the first colon, if a known prefix stands before
it and the name is not empty. -/
def referredName? (reference : String) : Option String :=
  let given := reference.toList.takeWhile (· != ':')
  match reference.toList.dropWhile (· != ':') with
  | _ :: c :: cs =>
    if String.ofList given ∈ referencePrefixes then some (String.ofList (c :: cs)) else none
  | _ => none

/-- The name in a type reference, or the error of an unknown reference. -/
def resolve (reference : String) : Except Error String :=
  match referredName? reference with
  | some name => .ok name
  | none => .error (.unknownReference reference)

/-- The reference of an attribute that may be missing. -/
def resolve? : Option String → Except Error (Option String)
  | none => .ok none
  | some reference => (resolve reference).map some

/-- The simple type of a `simpleType` element: its literals if the restriction has an
enumeration, even one without values, and otherwise its base alone. -/
def simpleTypeOf (e : Element) : Except Error SimpleType :=
  match e.attribute? "name" with
  | none => .error (.emptySimpleType "<unnamed>")
  | some name =>
    match e.child? "restriction" with
    | none => .error (.emptySimpleType name)
    | some restriction =>
      (resolve? (restriction.attribute? "base")).bind fun base =>
        match restriction.childrenNamed "enumeration", base with
        | [], none => .error (.emptySimpleType name)
        | [], some base => .ok { name, base := some base }
        | values, base =>
          .ok { name, base, literals := some (values.filterMap (·.attribute? "value")) }

/-- The field of an `element` of a sequence. One without a name and a type of its own, such as a
reference to another element, gives none. -/
def fieldOf (e : Element) : Report Error (Option Field) :=
  match e.attribute? "name", e.attribute? "type" with
  | some name, some type =>
    Report.ofExcept ((resolve type).map fun type => some
      { name, type
        isArray := e.attribute? "maxOccurs" == some "unbounded"
        isOptional := e.attribute? "minOccurs" == some "0" })
  | name, _ =>
    ⟨[.fieldWithoutType ((name.or (e.attribute? "ref")).getD "<unnamed>")], .ok none⟩

/-- The fields of elements of a sequence, in order. -/
def fieldsOf (es : List Element) : Report Error (List Field) :=
  Report.collect fieldOf es

/-- Whether a sequence holds wildcards but no elements. -/
def isWildcardOnly (sequence : Element) : Bool :=
  (sequence.childrenNamed "element").isEmpty && !(sequence.childrenNamed "any").isEmpty

/-- A type that is passed over, with the notice that tells so. -/
def passOver {α : Type} (notice : Notice) : Report Error (Option α) :=
  ⟨[notice], .ok none⟩

/-- The fields of the first sequence of an element, if it has one. -/
def sequenceFieldsOf (e : Element) : Report Error (List Field) :=
  match e.child? "sequence" with
  | none => pure []
  | some sequence => fieldsOf (sequence.childrenNamed "element")

/-- The complex type of the given name that extends another one. -/
def extensionOf (name : String) (extension : Element) : Report Error (Option ComplexType) :=
  match extension.attribute? "base" with
  | none => passOver (.extensionWithoutBase name)
  | some reference => do
    let fields ← sequenceFieldsOf extension
    let base ← Report.ofExcept (resolve reference)
    pure (some { name, base := some base, fields })

/-- The complex type of a `complexType` element: the fields of its sequence, or else those that
the extension in its complex content adds to a base. -/
def complexTypeOf (e : Element) : Report Error (Option ComplexType) :=
  match e.attribute? "name" with
  | none => passOver .unnamedComplexType
  | some name =>
    match e.child? "sequence" with
    | some sequence =>
      if isWildcardOnly sequence then passOver (.wildcardContent name)
      else do
        let fields ← fieldsOf (sequence.childrenNamed "element")
        pure (some { name, fields })
    | none =>
      match e.descend? ["complexContent", "extension"] with
      | some extension => extensionOf name extension
      | none => passOver (.noContent name)

/-- The complex type of a top-level `element` that has one of its own with a sequence. Elements
that refer to a named type declare none. -/
def elementTypeOf (e : Element) : Report Error (Option ComplexType) :=
  match e.descend? ["complexType", "sequence"] with
  | none => pure none
  | some sequence =>
    match e.attribute? "name" with
    | none => passOver .unnamedElement
    | some name => do
      let fields ← fieldsOf (sequence.childrenNamed "element")
      pure (some { name, fields })

/-- The simple types of `simpleType` elements, sorted by name. -/
def simpleTypesOf (es : List Element) : Except Error (List SimpleType) :=
  (es.mapM simpleTypeOf).map (·.mergeSort (·.name ≤ ·.name))

/-- The complex types of `complexType` elements, sorted by name. -/
def complexTypesOf (es : List Element) : Report Error (List ComplexType) := do
  let types ← Report.collect complexTypeOf es
  pure (types.mergeSort (·.name ≤ ·.name))

/-- The complex types of top-level `element` elements, in order. -/
def elementTypesOf (es : List Element) : Report Error (List ComplexType) :=
  Report.collect elementTypeOf es

/-- The types that the children of a `schema` element declare. Types of elements come before
named complex types and are not sorted. -/
def ofSchemaElement (schema : Element) : Report Error Schema := do
  let complexTypes := schema.childrenNamed "complexType"
  let simpleTypes := schema.childrenNamed "simpleType"
  let elements := schema.childrenNamed "element"
  Report.tell [.foundComplexTypes complexTypes.length, .foundSimpleTypes simpleTypes.length,
    .foundElements elements.length]
  let ofElements ← elementTypesOf elements
  let simple ← Report.ofExcept (simpleTypesOf simpleTypes)
  let complex ← complexTypesOf complexTypes
  Report.tell [.keptComplexTypes (ofElements ++ complex).length, .keptSimpleTypes simple.length]
  pure ⟨simple, ofElements ++ complex⟩

/-- The schema of a service description, given by its root element. -/
def ofRoot (root : Element) : Report Error Schema :=
  if root.localName == "definitions" then
    match root.descend? ["types", "schema"] with
    | some schema => ofSchemaElement schema
    | none => Report.fail (.missingNode "definitions/types/schema")
  else
    Report.fail (.missingNode "definitions")

end SoapTypes.Schema
