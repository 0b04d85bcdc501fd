import SoapTypes.Xml.Markup

/-!
# Readings

Reading a text gives the events of its constructs in order, up to its end or to the first fault
in its notation. An end tag must name the element that was opened last.
-/

namespace SoapTypes.Xml

/-- The events of a text, and the fault that ended its reading early. -/
structure Reading where
  events : List Event
  fault : Option Error
  deriving DecidableEq, Repr

/-- A reading that ends in a fault at once. -/
def Reading.stop (e : Error) : Reading := ⟨[], some e⟩

/-- A reading with an event in front. -/
def Reading.cons (event : Event) (r : Reading) : Reading := ⟨event :: r.events, r.fault⟩

/-- The names of the open elements, the last opened first, after an event. -/
def openAfter (opened : List String) : Event → Except FormFault (List String)
  | .opening name _ => .ok (name :: opened)
  | .closing name =>
    match opened with
    | [] => .error (.strayEnd name)
    | o :: os => if o = name then .ok os else .error (.wrongEnd o name)
  | .empty _ _ | .other => .ok opened

/-- Reads a text inside of the given open elements, the last opened first. Between tags, only a
reference that is not closed is a fault. -/
def readText (opened : List String) (s : List Char) : Reading :=
  match s with
  | [] => ⟨[], none⟩
  | c :: s =>
    if c = '<' then
      match _h : markup s with
      | .error e => .stop e
      | .ok (event, rest) =>
        match openAfter opened event with
        | .error f => .stop (.form f)
        | .ok opened => (readText opened rest).cons event
    else if c = '&' then
      match _h : s.dropWhile fun c => c != ';' && c != '&' && c != '<' with
      | ';' :: rest => (readText opened rest).cons .other
      | _ => .stop (.form .unclosedReference)
    else readText opened s
termination_by s.length
decreasing_by
  · exact Nat.lt_succ_of_le (length_le_of_markup _h)
  · have := (_h ▸ List.dropWhile_suffix _ : ';' :: rest <:+ s).length_le
    simp only [List.length_cons] at this ⊢
    omega
  · simp

/-- Reads a whole text. A byte order mark at its start does not count. -/
def Reading.ofText (text : String) : Reading :=
  match text.toList with
  | '\uFEFF' :: s => readText [] s
  | s => readText [] s

end SoapTypes.Xml
