import SoapTypes.Xml.Element
import SoapTypes.Xml.Reading
import SoapTypes.Xml.Reference

/-!
# Documents

The events of a document make one tree. While they are taken in order, the open elements are
kept with the children that they have so far; an element joins the one around it when it is
finished, and the one without any around it is the root.
-/

namespace SoapTypes.Xml

/-- An open element, its finished children in reverse order. -/
structure OpenElement where
  name : String
  attributes : List Attribute
  finished : List Element

/-- The element with the children that it has so far. -/
def OpenElement.close (o : OpenElement) : Element :=
  ⟨o.name, o.attributes, o.finished.reverse⟩

/-- A tree that is being put together. -/
structure Assembly where
  /-- The open elements, the innermost first. -/
  opened : List OpenElement
  /-- The finished root. -/
  root : Option Element

namespace Assembly

/-- Nothing is open and nothing finished. -/
def start : Assembly := ⟨[], none⟩

/-- Gives a finished element its place: in the innermost open element, or as the root. -/
def attach (a : Assembly) (e : Element) : Except Error Assembly :=
  match a.opened, a.root with
  | o :: os, root => .ok ⟨{ o with finished := e :: o.finished } :: os, root⟩
  | [], none => .ok ⟨[], some e⟩
  | [], some _ => .error (.tree (.secondRoot e.name))

end Assembly

/-- An attribute with the references in its value resolved. -/
def RawAttribute.resolve (a : RawAttribute) : Except Error Attribute :=
  match unescape a.value with
  | .ok value => .ok (a.key, value)
  | .error f => .error (.reference f)

namespace Assembly

/-- Takes one event. -/
def step (a : Assembly) : Event → Except Error Assembly
  | .opening name raw =>
    (raw.mapM RawAttribute.resolve).map fun attributes =>
      { a with opened := ⟨name, attributes, []⟩ :: a.opened }
  | .empty name raw =>
    (raw.mapM RawAttribute.resolve).bind fun attributes => a.attach ⟨name, attributes, []⟩
  | .closing _ =>
    match a.opened with
    | [] => .error (.tree .unexpectedEnd)
    | o :: os => { a with opened := os }.attach o.close
  | .other => .ok a

/-- The finished tree, if all elements are closed and there is one. -/
def finish (a : Assembly) : Except Error Element :=
  match a.opened, a.root with
  | o :: _, _ => .error (.tree (.neverClosed o.name))
  | [], some e => .ok e
  | [], none => .error (.tree .noRoot)

end Assembly

/-- The tree of a reading. The first fault counts, whether an event does not fit or the reading
ends early. -/
def Reading.element (r : Reading) : Except Error Element :=
  (r.events.foldlM Assembly.step .start).bind fun a =>
    match r.fault with
    | some e => .error e
    | none => a.finish

/-- The root element of an XML text. -/
def parse (text : String) : Except Error Element :=
  (Reading.ofText text).element

end SoapTypes.Xml
