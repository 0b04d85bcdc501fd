import SoapTypes.Proofs.Traversal
import SoapTypes.Xml.Document

/-!
# Trees and their start tags

The tree of a document is put together from the inside out: an element is finished after all that it
holds. Its outline nevertheless grows in the order of the events, by one entry at each start tag, if
the elements that are still open count with the children that they have so far.
-/

namespace SoapTypes.Xml

/-- What a start tag tells: the name of its element and the attributes as they are written. -/
structure StartTag where
  name : String
  attributes : List RawAttribute
  deriving DecidableEq, Repr

/-- The start tags among events, each with the number of elements that are open at it. -/
def startTags (depth : Nat) : List Event → List (Nat × StartTag)
  | [] => []
  | .opening name attributes :: events =>
    (depth, ⟨name, attributes⟩) :: startTags (depth + 1) events
  | .empty name attributes :: events => (depth, ⟨name, attributes⟩) :: startTags depth events
  | .closing _ :: events => startTags (depth - 1) events
  | .other :: events => startTags depth events

/-- An entry has the name of the tag and its attributes with their references resolved. -/
structure OutlineEntry.Shows (entry : OutlineEntry) (tag : StartTag) : Prop where
  name : entry.name = tag.name
  attributes : tag.attributes.mapM RawAttribute.resolve = .ok entry.attributes

/-- An entry shows a tag at its depth. -/
def ShowsAt (start : Nat × StartTag) (entry : OutlineEntry) : Prop :=
  entry.depth = start.1 ∧ entry.Shows start.2

theorem outlines_append (depth : Nat) (es es' : List Element) :
    outlines depth (es ++ es') = outlines depth es ++ outlines depth es' := by
  induction es with
  | nil => rfl
  | cons e es ih => rw [List.cons_append, outlines, outlines, ih, List.append_assoc]

/-- The outline of the open elements, the outermost first, each with the children that it has so
far. -/
def openOutline : List OpenElement → List OutlineEntry
  | [] => []
  | o :: os => openOutline os ++ o.close.outline os.length

namespace Assembly

/-- The outline of a tree that is being put together. -/
def outline (a : Assembly) : List OutlineEntry :=
  a.root.elim [] (·.outline 0) ++ openOutline a.opened

/-- A finished element joins the outline at its end. -/
theorem outline_attach {a a' : Assembly} {e : Element} (h : a.attach e = .ok a') :
    a'.outline = a.outline ++ e.outline a.opened.length ∧ a'.opened.length = a.opened.length := by
  obtain ⟨opened, root⟩ := a
  cases opened with
  | nil =>
    cases root with
    | none =>
      obtain rfl := Except.ok.inj h
      simp [outline, openOutline]
    | some _ => cases h
  | cons o os =>
    obtain rfl := Except.ok.inj h
    simp [outline, openOutline, OpenElement.close, Element.outline, outlines_append, outlines]

/-- With each event the outline grows by the entry for its start tag, if it is one. -/
theorem outline_step {a a' : Assembly} {event : Event} (h : a.step event = .ok a') :
    ∃ entries, a'.outline = a.outline ++ entries ∧ ∀ events rest,
      List.Forall₂ ShowsAt (startTags a'.opened.length events) rest →
        List.Forall₂ ShowsAt (startTags a.opened.length (event :: events)) (entries ++ rest) := by
  cases event with
  | opening name raw =>
    obtain ⟨attributes, hresolved, rfl⟩ := except_map_eq_ok_iff.1 h
    refine ⟨[⟨a.opened.length, name, attributes⟩], ?_, fun events rest hrest => ?_⟩
    · simp [outline, openOutline, OpenElement.close, Element.outline, outlines]
    · exact .cons ⟨rfl, rfl, hresolved⟩ hrest
  | empty name raw =>
    obtain ⟨attributes, hresolved, hattach⟩ := except_bind_eq_ok_iff.1 h
    obtain ⟨houtline, hlength⟩ := outline_attach hattach
    refine ⟨[⟨a.opened.length, name, attributes⟩], houtline, fun events rest hrest => ?_⟩
    exact .cons ⟨rfl, rfl, hresolved⟩ (hlength ▸ hrest)
  | closing name =>
    obtain ⟨opened, root⟩ := a
    cases opened with
    | nil => cases h
    | cons o os =>
      obtain ⟨houtline, hlength⟩ := outline_attach h
      refine ⟨[], ?_, fun events rest hrest => ?_⟩
      · rw [houtline]
        simp [outline, openOutline]
      · rw [hlength] at hrest
        exact hrest
  | other =>
    obtain rfl := Except.ok.inj h
    exact ⟨[], (List.append_nil _).symm, fun _ _ hrest => hrest⟩

/-- With a run of events the outline grows by the entries for their start tags, in order. -/
theorem outline_foldlM {events : List Event} {a a' : Assembly}
    (h : events.foldlM step a = .ok a') :
    ∃ entries, a'.outline = a.outline ++ entries ∧
      List.Forall₂ ShowsAt (startTags a.opened.length events) entries := by
  induction events generalizing a with
  | nil =>
    obtain rfl := Except.ok.inj h
    exact ⟨[], (List.append_nil _).symm, .nil⟩
  | cons event events ih =>
    obtain ⟨next, hstep, hrest⟩ := except_bind_eq_ok_iff.1 h
    obtain ⟨entries, houtline, hshows⟩ := outline_step hstep
    obtain ⟨later, hlater, hevents⟩ := ih hrest
    refine ⟨entries ++ later, ?_, hshows _ _ hevents⟩
    rw [hlater, houtline, List.append_assoc]

/-- A finished tree has the outline that has been put together. -/
theorem outline_of_finish {a : Assembly} {e : Element} (h : a.finish = .ok e) :
    a.outline = e.outline 0 := by
  obtain ⟨_ | ⟨o, os⟩, _ | root⟩ := a
  · cases h
  · obtain rfl := Except.ok.inj h
    simp [outline, openOutline]
  · cases h
  · cases h

end Assembly

/-- **The outline of a reading.** If the events of a reading make a tree, its outline has one entry
for each start tag, in order, each at the depth of the tag. -/
theorem Reading.forall₂_outline {r : Reading} {e : Element} (h : r.element = .ok e) :
    r.fault = none ∧ List.Forall₂ ShowsAt (startTags 0 r.events) (e.outline 0) := by
  obtain ⟨a, hfold, hfinish⟩ := except_bind_eq_ok_iff.1 h
  cases hfault : r.fault with
  | some fault =>
    rw [hfault] at hfinish
    cases hfinish
  | none =>
    rw [hfault] at hfinish
    obtain ⟨entries, houtline, hshows⟩ := Assembly.outline_foldlM hfold
    have hentries : entries = e.outline 0 := by
      rw [← Assembly.outline_of_finish hfinish, houtline]
      rfl
    exact ⟨rfl, hentries ▸ hshows⟩

end SoapTypes.Xml
