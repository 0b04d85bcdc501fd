/-!
# Elements

An XML document as a tree of elements. An element has a qualified name, attributes in the order
in which they are written, and child elements; text between tags is not kept. Elements are found
by their local names, whatever prefix they carry.
-/

namespace SoapTypes.Xml

/-- What follows the last colon of a qualified name; the whole name if it has no colon. -/
def localPart (qualified : String) : String :=
  String.ofList (qualified.toList.reverse.takeWhile (· != ':')).reverse

/-- An attribute: its qualified name and its value. -/
abbrev Attribute := String × String

/-- An element with what it holds. -/
structure Element where
  /-- The qualified name. -/
  name : String
  attributes : List Attribute := []
  children : List Element := []
  deriving Repr

mutual

/-- Whether two elements are equal. -/
def Element.decEq : (e e' : Element) → Decidable (e = e')
  | ⟨name, attributes, children⟩, ⟨name', attributes', children'⟩ =>
    have := decEqElements children children'
    decidable_of_iff (name = name' ∧ attributes = attributes' ∧ children = children') (by simp)

/-- Whether two lists of elements are equal. -/
def decEqElements : (es es' : List Element) → Decidable (es = es')
  | [], [] => isTrue rfl
  | [], _ :: _ => isFalse nofun
  | _ :: _, [] => isFalse nofun
  | e :: es, e' :: es' =>
    have := Element.decEq e e'
    have := decEqElements es es'
    decidable_of_iff (e = e' ∧ es = es') (by simp)

end

instance : DecidableEq Element := Element.decEq

namespace Element

/-- The name without its prefix. -/
def localName (e : Element) : String :=
  localPart e.name

/-- The value of the first attribute of a qualified name. -/
def attribute? (e : Element) (key : String) : Option String :=
  e.attributes.lookup key

/-- The children of a local name, in order. -/
def childrenNamed (e : Element) (name : String) : List Element :=
  e.children.filter (·.localName == name)

/-- The first child of a local name. -/
def child? (e : Element) (name : String) : Option Element :=
  e.children.find? (·.localName == name)

/-- Goes down along a path of local names, to the first child of the name each time. -/
def descend? (e : Element) : List String → Option Element
  | [] => some e
  | name :: path => (e.child? name).bind (·.descend? path)

end Element

/-- An element seen apart from its children, with the number of elements around it. -/
structure OutlineEntry where
  depth : Nat
  name : String
  attributes : List Attribute
  deriving DecidableEq, Repr

mutual

/-- An element and all below it, each before its children. -/
def Element.outline (depth : Nat) : Element → List OutlineEntry
  | ⟨name, attributes, children⟩ => ⟨depth, name, attributes⟩ :: outlines (depth + 1) children

/-- The outlines of several elements one after the other. -/
def outlines (depth : Nat) : List Element → List OutlineEntry
  | [] => []
  | e :: es => e.outline depth ++ outlines depth es

end

end SoapTypes.Xml
