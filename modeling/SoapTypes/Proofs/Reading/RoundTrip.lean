import SoapTypes.Proofs.Reading.Tag

/-!
# Written documents

How a tree is written as a document, and that parsing gives the tree back. Elements are written as
nested tags, those without children in either of two ways, and between tags there may be comments
and any text that begins no markup. What is written for a list of elements is read as a whole
wherever it stands, and its events attach these elements in order; this holds of the content of an
element as it does of the whole document, so one induction over the way of writing carries it.
-/

namespace SoapTypes.Xml

/-- What may stand between tags: comments, without a hyphen inside, and text without the characters
that begin markup and references. -/
inductive Gap : List Char → Prop
  | nil : Gap []
  | text {words s : List Char} (hmarkup : '<' ∉ words) (hreference : '&' ∉ words) (h : Gap s) :
      Gap (words ++ s)
  | comment {body s : List Char} (hbody : '-' ∉ body) (h : Gap s) :
      Gap ('<' :: '!' :: '-' :: '-' :: (body ++ '-' :: '-' :: '>' :: s))

/-- Elements as they are written one after the other, with gaps around and between them. -/
inductive ContentText : List Element → List Char → Prop
  | gap {s : List Char} (h : Gap s) : ContentText [] s
  | empty {name : String} {attributes : List Attribute} {elements : List Element}
      {gap tag s : List Char} (hgap : Gap gap) (htag : AttributesText attributes tag)
      (h : ContentText elements s) :
      ContentText (⟨name, attributes, []⟩ :: elements)
        (gap ++ '<' :: (name.toList ++ (tag ++ '/' :: '>' :: s)))
  | nested {name : String} {attributes : List Attribute} {children elements : List Element}
      {gap tag inner blank s : List Char} (hgap : Gap gap) (htag : AttributesText attributes tag)
      (hinner : ContentText children inner) (hblank : Spaces blank)
      (h : ContentText elements s) :
      ContentText (⟨name, attributes, children⟩ :: elements)
        (gap ++ '<' :: (name.toList ++ (tag ++ '>' ::
          (inner ++ '<' :: '/' :: (name.toList ++ (blank ++ '>' :: s))))))

/-- A text that the tree is written as. -/
def DocumentText (e : Element) (text : String) : Prop :=
  ContentText [e] text.toList

/-- All names in the tree are qualified names, and no element has the same key twice. -/
inductive Element.WellNamed : Element → Prop
  | mk {e : Element} (tag : TagNames e.name e.attributes)
      (children : ∀ child ∈ e.children, child.WellNamed) : e.WellNamed

/-- A reading with events in front. -/
def Reading.prepend (events : List Event) (r : Reading) : Reading := ⟨events ++ r.events, r.fault⟩

/-- Whatever is open, reading the text gives the events and goes on behind it with the same
elements open. -/
def Reads (text : List Char) (events : List Event) : Prop :=
  ∀ opened rest, readText opened (text ++ rest) = (readText opened rest).prepend events

theorem Reads.append {s t : List Char} {events events' : List Event} (hs : Reads s events)
    (ht : Reads t events') : Reads (s ++ t) (events ++ events') := by
  intro opened rest
  rw [List.append_assoc, hs, ht]
  simp [Reading.prepend]

/-- Text that begins no markup and no reference is passed over. -/
theorem readText_append {opened : List String} {words : List Char} (hmarkup : '<' ∉ words)
    (hreference : '&' ∉ words) (s : List Char) :
    readText opened (words ++ s) = readText opened s := by
  induction words with
  | nil => rfl
  | cons c words ih =>
    rw [List.mem_cons, not_or] at hmarkup hreference
    rw [List.cons_append, readText, if_neg (Ne.symm hmarkup.1), if_neg (Ne.symm hreference.1),
      ih hmarkup.2 hreference.2]

/-- Reading takes a construct and goes on behind it with what is open then. -/
theorem readText_markup {opened opened' : List String} {event : Event} {s rest : List Char}
    (hs : markup s = .ok (event, rest)) (hopened : openAfter opened event = .ok opened') :
    readText opened ('<' :: s) = (readText opened' rest).prepend [event] := by
  rw [readText, if_pos rfl]
  split
  · rename_i h
    cases hs.symm.trans h
  · rename_i h
    obtain ⟨rfl, rfl⟩ := Prod.mk.inj (Except.ok.inj (hs.symm.trans h))
    rw [hopened]
    rfl

/-- A comment without a hyphen inside ends at the first one. -/
theorem markup_comment {body : List Char} (hbody : '-' ∉ body) (rest : List Char) :
    markup ('!' :: '-' :: '-' :: (body ++ '-' :: '-' :: '>' :: rest)) = .ok (.other, rest) := by
  have hend : behind? ['-', '-', '>'] (body ++ (['-', '-', '>'] ++ rest)) = some rest :=
    behind?_append hbody
  have hcomment : markup ('!' :: '-' :: '-' :: (body ++ '-' :: '-' :: '>' :: rest)) =
      passed .comment (behind? ['-', '-', '>'] (body ++ (['-', '-', '>'] ++ rest))) := rfl
  rw [hcomment, hend]
  rfl

/-- Elements that are attached while another is open become its children. -/
theorem foldlM_attach_opened (elements : List Element) (o : OpenElement) (opened : List OpenElement)
    (root : Option Element) :
    elements.foldlM Assembly.attach ⟨o :: opened, root⟩ =
      .ok ⟨{ o with finished := elements.reverse ++ o.finished } :: opened, root⟩ := by
  induction elements generalizing o with
  | nil => rfl
  | cons e elements ih =>
    have hattach : Assembly.attach ⟨o :: opened, root⟩ e =
        .ok ⟨{ o with finished := e :: o.finished } :: opened, root⟩ := rfl
    rw [List.foldlM_cons, hattach, List.reverse_cons, List.append_assoc]
    exact ih _

/-- The text is read as a whole wherever it stands, and what its events do to a tree is to attach
the elements in order. -/
def Attaches (text : List Char) (elements : List Element) : Prop :=
  ∃ events, Reads text events ∧
    ∀ a : Assembly, events.foldlM Assembly.step a = elements.foldlM Assembly.attach a

theorem Attaches.append {s t : List Char} {elements elements' : List Element}
    (hs : Attaches s elements) (ht : Attaches t elements') :
    Attaches (s ++ t) (elements ++ elements') := by
  obtain ⟨events, hreads, hfold⟩ := hs
  obtain ⟨events', hreads', hfold'⟩ := ht
  refine ⟨events ++ events', hreads.append hreads', fun a => ?_⟩
  rw [List.foldlM_append, List.foldlM_append, hfold]
  simp only [hfold']

/-- A gap attaches nothing. -/
theorem Gap.attaches {s : List Char} (h : Gap s) : Attaches s [] := by
  induction h with
  | nil => exact ⟨[], fun _ _ => rfl, fun _ => rfl⟩
  | @text words s hmarkup hreference _ ih =>
    obtain ⟨events, hreads, hfold⟩ := ih
    refine ⟨events, fun opened rest => ?_, hfold⟩
    rw [List.append_assoc, readText_append hmarkup hreference, hreads]
  | @comment body s hbody _ ih =>
    obtain ⟨events, hreads, hfold⟩ := ih
    refine ⟨.other :: events, fun opened rest => ?_, hfold⟩
    simp only [List.cons_append, List.append_assoc]
    rw [readText_markup (markup_comment hbody _) rfl]
    exact congrArg (Reading.prepend [.other]) (hreads opened rest)

section Elements

variable {name : String} {attributes : List Attribute} {tag : List Char}
  (hnames : TagNames name attributes) (htag : AttributesText attributes tag)

include hnames htag

/-- An empty tag attaches an element without children. -/
theorem attaches_empty :
    Attaches ('<' :: (name.toList ++ (tag ++ ['/', '>']))) [⟨name, attributes, []⟩] := by
  refine ⟨[.empty name (attributes.map writtenAttribute)], fun opened rest => ?_, fun a => ?_⟩
  · rw [List.cons_append, List.append_assoc, List.append_assoc]
    exact readText_markup (markup_empty hnames htag rest) rfl
  · rw [List.foldlM_cons, List.foldlM_cons, Assembly.step, mapM_resolve_map_writtenAttribute]
    rfl

/-- Nested tags attach an element with all that is attached between them as its children. -/
theorem attaches_nested {children : List Element} {inner blank : List Char}
    (hinner : Attaches inner children) (hblank : Spaces blank) :
    Attaches
      ('<' :: (name.toList ++ (tag ++ '>' ::
        (inner ++ '<' :: '/' :: (name.toList ++ (blank ++ ['>']))))))
      [⟨name, attributes, children⟩] := by
  obtain ⟨events, hreads, hfold⟩ := hinner
  refine ⟨.opening name (attributes.map writtenAttribute) :: (events ++ [.closing name]),
    fun opened rest => ?_, fun a => ?_⟩
  · -- The inner text is read with the element open, which its end tag closes again.
    have hclose : openAfter (name :: opened) (.closing name) = .ok opened := if_pos rfl
    simp only [List.cons_append, List.append_assoc]
    rw [readText_markup (markup_opening hnames htag _) rfl, hreads,
      readText_markup (markup_closing hnames.name hblank _) hclose]
    simp [Reading.prepend]
  · have hopen : a.step (.opening name (attributes.map writtenAttribute)) =
        .ok ⟨⟨name, attributes, []⟩ :: a.opened, a.root⟩ := by
      rw [Assembly.step, mapM_resolve_map_writtenAttribute]
      rfl
    rw [List.foldlM_cons, hopen]
    simp only [bind, Except.bind]
    rw [List.foldlM_append, hfold, foldlM_attach_opened]
    simp [Assembly.step, OpenElement.close, bind, Except.bind]

end Elements

/-- What is written for elements attaches them. -/
theorem ContentText.attaches {elements : List Element} {s : List Char} (h : ContentText elements s)
    (hnamed : ∀ e ∈ elements, e.WellNamed) : Attaches s elements := by
  induction h with
  | gap h => exact h.attaches
  | @empty name attributes elements gap tag s hgap htag _ ih =>
    rw [List.forall_mem_cons] at hnamed
    obtain ⟨⟨hnames, -⟩, hrest⟩ := hnamed
    have hall := hgap.attaches.append ((attaches_empty hnames htag).append (ih hrest))
    simpa using hall
  | @nested name attributes children elements gap tag inner blank s hgap htag _ hblank _ ihinner
      ih =>
    rw [List.forall_mem_cons] at hnamed
    obtain ⟨⟨hnames, hchildren⟩, hrest⟩ := hnamed
    have helement := attaches_nested hnames htag (ihinner hchildren) hblank
    have hall := hgap.attaches.append (helement.append (ih hrest))
    simpa using hall

/-- Elements can be written whatever they hold. -/
theorem exists_contentText : ∀ elements : List Element, ∃ s, ContentText elements s
  | [] => ⟨[], .gap .nil⟩
  | ⟨_, attributes, children⟩ :: elements => by
    -- The first element and its children are both smaller than the list, so this is no plain
    -- induction on the list.
    obtain ⟨tag, htag⟩ := exists_attributesText attributes
    obtain ⟨inner, hinner⟩ := exists_contentText children
    obtain ⟨s, hs⟩ := exists_contentText elements
    have hblank : Spaces [] := by decide
    exact ⟨_, .nested .nil htag hinner hblank hs⟩

/-- A mark of the byte order is read as text. -/
theorem Reading.ofText_eq (text : String) : Reading.ofText text = readText [] text.toList := by
  unfold Reading.ofText
  split
  · rename_i s h
    have hmarkup : '<' ∉ ['\uFEFF'] := by decide
    have hreference : '&' ∉ ['\uFEFF'] := by decide
    rw [h]
    exact (readText_append hmarkup hreference s).symm
  · rfl

/-- **Parsing undoes writing.** A tree with qualified names, in which no element has a key twice,
can be written as a document, and parsing gives it back however it has been written. -/
theorem parse_documentText {e : Element} (h : e.WellNamed) :
    (∃ text, DocumentText e text) ∧ ∀ text, DocumentText e text → parse text = .ok e := by
  obtain ⟨s, hs⟩ := exists_contentText [e]
  refine ⟨⟨String.ofList s, by rwa [DocumentText, String.toList_ofList]⟩, fun text htext => ?_⟩
  obtain ⟨events, hreads, hfold⟩ := htext.attaches (List.forall_mem_singleton.2 h)
  have hreading : Reading.ofText text = ⟨events, none⟩ := by
    rw [Reading.ofText_eq, ← List.append_nil text.toList, hreads, readText]
    simp [Reading.prepend]
  have hattach : [e].foldlM Assembly.attach .start = .ok ⟨[], some e⟩ := rfl
  rw [parse, Reading.element, hreading, hfold, hattach]
  rfl

/-- A tree whose values hold all characters that are written as references. -/
def markedElement : Element :=
  ⟨"a:b", [("key", "x<\"&'>"), ("_k.2", "")], [⟨"c", [], []⟩, ⟨"c", [], []⟩]⟩

/-- A document of this tree, with its two children written in different ways. -/
def markedText : String :=
  "<!-- <c> -->\n<a:b key=\"x&lt;&quot;&amp;'&gt;\"\t_k.2=\"\" >1 > 0<c/>\n<c></c ></a:b>\n"

/-- The tree is read from its document as `parse_documentText` says. -/
theorem markedElement_parse :
    markedElement.WellNamed ∧ DocumentText markedElement markedText ∧
      parse markedText = .ok markedElement := by
  have hnamed : markedElement.WellNamed := by
    refine .mk ⟨by decide, by decide, by decide⟩ fun child hchild => ?_
    obtain rfl : child = ⟨"c", [], []⟩ := by
      simpa [markedElement] using hchild
    exact .mk ⟨by decide, by decide, by decide⟩ fun _ => nofun
  have hspace : Spaces [' '] := by decide
  have htab : Spaces ['\t'] := by decide
  have hkeys : AttributesText markedElement.attributes _ :=
    .cons hspace (by decide) (.cons htab (by decide) (.nil hspace))
  have hnoSpace : Spaces [] := by decide
  have hnoKeys : AttributesText [] [] := .nil (by decide)
  have hline : Gap ['\n'] := @Gap.text ['\n'] [] (by decide) (by decide) .nil
  have hwords : Gap "1 > 0".toList :=
    @Gap.text "1 > 0".toList [] (by decide) (by decide) .nil
  have hcomment : Gap "<!-- <c> -->\n".toList :=
    @Gap.comment " <c> ".toList _ (by decide) hline
  have hsecond := @ContentText.nested "c" [] [] [] _ _ _ _ _ hline hnoKeys (.gap .nil) hspace
    (.gap .nil)
  have hchildren := @ContentText.empty "c" [] _ _ _ _ hwords hnoKeys hsecond
  have hroot := @ContentText.nested "a:b" _ _ [] _ _ _ _ _ hcomment hkeys hchildren hnoSpace
    (.gap hline)
  have hdocument : DocumentText markedElement markedText := hroot
  exact ⟨hnamed, hdocument, (parse_documentText hnamed).2 markedText hdocument⟩

end SoapTypes.Xml
