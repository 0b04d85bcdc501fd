import SoapTypes.Proofs.Reading.Offence
import SoapTypes.Proofs.Reading.StartTags

/-!
# Events that make a tree

What is put together has, at every event, the open elements and the root that the names of the
events tell, and an event is not taken exactly if it does not fit behind those before it. So the
first such event decides about the tree, or else the end of the reading. The reader of a text keeps
the same names, and passes on no end tag that is not that of the innermost open element.
-/

namespace SoapTypes.Xml

@[simp] theorem OpenElement.name_close (o : OpenElement) : o.close.name = o.name :=
  rfl

namespace Assembly

/-- What is put together has the open elements and the root that the events make. -/
structure Mirrors (a : Assembly) (events : List Event) : Prop where
  opened : a.opened.map (·.name) = openNames events
  root : a.root.toList.map (·.name) = outermostNames [] events

theorem mirrors_start : start.Mirrors [] :=
  ⟨rfl, rfl⟩

/-- A finished element has no place exactly if nothing is open and there is a root. -/
theorem attach_eq_error_iff {a : Assembly} {e : Element} {error : Error} :
    a.attach e = .error error ↔
      a.opened = [] ∧ a.root ≠ none ∧ error = .tree (.secondRoot e.name) := by
  rcases a with ⟨_ | ⟨o, os⟩, _ | root⟩ <;> simp [attach, eq_comm]

/-- A finished element that finds its place is the root if nothing is open. -/
theorem names_of_attach {a a' : Assembly} {e : Element} (h : a.attach e = .ok a') :
    a'.opened.map (·.name) = a.opened.map (·.name) ∧
      a'.root.toList.map (·.name) =
        a.root.toList.map (·.name) ++ if a.opened = [] then [e.name] else [] := by
  rcases a with ⟨_ | ⟨o, os⟩, _ | root⟩
  · obtain rfl := Except.ok.inj h
    exact ⟨rfl, rfl⟩
  · cases h
  · obtain rfl := Except.ok.inj h
    exact ⟨rfl, rfl⟩
  · obtain rfl := Except.ok.inj h
    exact ⟨rfl, rfl⟩

namespace Mirrors

variable {a a' : Assembly} {events : List Event} {event : Event} {error : Error}

theorem opened_eq_nil_iff (h : a.Mirrors events) : a.opened = [] ↔ openNames events = [] := by
  rw [← h.opened, List.map_eq_nil_iff]

theorem root_eq_none_iff (h : a.Mirrors events) :
    a.root = none ↔ outermostNames [] events = [] := by
  rw [← h.root, List.map_eq_nil_iff, Option.toList_eq_nil_iff]

/-- What has taken an event mirrors the events up to this one. -/
theorem step (h : a.Mirrors events) (hstep : a.step event = .ok a') :
    a'.Mirrors (events ++ [event]) := by
  cases event with
  | opening name raw =>
    obtain ⟨attributes, -, rfl⟩ := except_map_eq_ok_iff.1 hstep
    constructor
    · simp [openBehind, ← h.opened]
    · simp [h.root]
  | empty name raw =>
    obtain ⟨attributes, -, hattach⟩ := except_bind_eq_ok_iff.1 hstep
    obtain ⟨hopened, hroot⟩ := names_of_attach hattach
    constructor
    · rw [hopened, h.opened, openNames_concat, openBehind]
    · rw [hroot, h.root, outermostNames_concat]
      by_cases hnone : openNames events = []
      · simp [h.opened_eq_nil_iff, hnone]
      · simp [h.opened_eq_nil_iff, hnone]
  | closing name =>
    obtain ⟨opened, root⟩ := a
    cases opened with
    | nil => cases hstep
    | cons o os =>
      obtain ⟨hopened, hroot⟩ := names_of_attach hstep
      have hnames : openNames events = o.name :: os.map (·.name) := h.opened.symm
      constructor
      · rw [hopened, openNames_concat, hnames]
        rfl
      · rw [hroot, h.root, outermostNames_concat, hnames]
        cases os with
        | nil => rfl
        | cons o' os => rfl
  | other =>
    obtain rfl := Except.ok.inj hstep
    constructor
    · simp [openBehind, h.opened]
    · simp [h.root]

/-- An event is not taken exactly if it does not fit behind those before it. -/
theorem step_eq_error_iff (h : a.Mirrors events) :
    a.step event = .error error ↔ Offends events event error := by
  cases event with
  | opening name raw =>
    rw [offends_opening_iff, Assembly.step, except_map_eq_error_iff]
  | empty name raw =>
    rw [offends_empty_iff, ← h.opened_eq_nil_iff, Ne, ← h.root_eq_none_iff]
    simp only [Assembly.step, except_bind_eq_error_iff, attach_eq_error_iff, exists_and_right, Ne]
  | closing name =>
    rw [offends_closing_iff, Ne, ← h.root_eq_none_iff, ← h.opened]
    obtain ⟨opened, root⟩ := a
    cases opened with
    | nil => simp [Assembly.step, eq_comm]
    | cons o os => simp [Assembly.step, attach_eq_error_iff]
  | other =>
    constructor
    · intro hstep
      cases hstep
    · intro hoffends
      cases not_offends_other hoffends

/-- No tree is finished exactly if an element is open or there is no root. -/
theorem finish_eq_error_iff (h : a.Mirrors events) :
    a.finish = .error error ↔
      (∃ name around, openNames events = name :: around ∧ error = .tree (.neverClosed name)) ∨
        openNames events = [] ∧ outermostNames [] events = [] ∧ error = .tree .noRoot := by
  rw [← h.opened, ← h.root]
  rcases a with ⟨_ | ⟨o, os⟩, _ | root⟩ <;> simp [finish, @eq_comm _ error]

end Mirrors

/-! ## Runs of events -/

theorem foldlM_concat (a : Assembly) (events : List Event) (event : Event) :
    (events ++ [event]).foldlM step a = (events.foldlM step a).bind (·.step event) := by
  rw [List.foldlM_append]
  cases events.foldlM step a with
  | error e => rfl
  | ok a' => exact bind_pure (a'.step event)

/-- What has taken events mirrors them. -/
theorem mirrors_of_foldlM {events : List Event} {a : Assembly}
    (h : events.foldlM step .start = .ok a) : a.Mirrors events := by
  induction events using List.reverseRecOn generalizing a with
  | nil =>
    obtain rfl := Except.ok.inj h
    exact mirrors_start
  | append_singleton events event ih =>
    rw [foldlM_concat, except_bind_eq_ok_iff] at h
    obtain ⟨a', hfold, hstep⟩ := h
    exact (ih hfold).step hstep

/-- Taking events fails with the first one that does not fit. -/
theorem foldlM_eq_error_iff {events : List Event} {error : Error} :
    events.foldlM step .start = .error error ↔ FirstOffence events error := by
  induction events using List.reverseRecOn generalizing error with
  | nil => exact ⟨nofun, fun h => absurd h (not_firstOffence_nil error)⟩
  | append_singleton events event ih =>
    rw [foldlM_concat, except_bind_eq_error_iff, firstOffence_concat_iff, ih]
    refine or_congr_right ?_
    constructor
    · rintro ⟨a, hfold, hstep⟩
      have hclean : Clean events := clean_iff.2 fun e hfirst => by
        cases hfold.symm.trans (ih.2 hfirst)
      exact ⟨hclean, (mirrors_of_foldlM hfold).step_eq_error_iff.1 hstep⟩
    · rintro ⟨hclean, hoffends⟩
      cases hfold : events.foldlM step .start with
      | error e => exact absurd (ih.1 hfold) (clean_iff.1 hclean e)
      | ok a => exact ⟨a, rfl, (mirrors_of_foldlM hfold).step_eq_error_iff.2 hoffends⟩

/-- Events are all taken exactly if they all fit. -/
theorem exists_foldlM_iff {events : List Event} :
    (∃ a, events.foldlM step .start = .ok a) ↔ Clean events := by
  rw [clean_iff, ← failure?_eq_none_iff, Option.eq_none_iff_forall_ne_some]
  simp only [Ne, failure?_eq_some_iff, foldlM_eq_error_iff]

end Assembly

/-! ## Readings -/

/-- The error of a reading all of whose events fit: the fault that has ended it, or an element that
is open at its end, the innermost one, or the lack of a root. -/
inductive EndError (r : Reading) : Error → Prop
  | fault {error : Error} (hfault : r.fault = some error) : EndError r error
  | neverClosed {name : String} {around : List String} (hfault : r.fault = none)
      (hopen : openNames r.events = name :: around) : EndError r (.tree (.neverClosed name))
  | noRoot (hfault : r.fault = none) (hopen : openNames r.events = [])
      (hroot : outermostNames [] r.events = []) : EndError r (.tree .noRoot)

/-- A reading makes no tree because of the first event that does not fit, or else because of its
end. -/
theorem Reading.element_eq_error_iff {r : Reading} {error : Error} :
    r.element = .error error ↔
      FirstOffence r.events error ∨ Clean r.events ∧ EndError r error := by
  rw [Reading.element, except_bind_eq_error_iff, Assembly.foldlM_eq_error_iff,
    ← Assembly.exists_foldlM_iff, ← exists_and_right]
  refine or_congr_right (exists_congr fun a => and_congr_right fun hfold => ?_)
  have hmirrors := Assembly.mirrors_of_foldlM hfold
  cases hfault : r.fault with
  | some e =>
    constructor
    · intro h
      obtain rfl := Except.error.inj h
      exact .fault hfault
    · rintro (h | h | h)
      · rw [hfault] at h
        rw [Option.some.inj h]
      · cases hfault.symm.trans h
      · cases hfault.symm.trans h
  | none =>
    rw [hmirrors.finish_eq_error_iff]
    constructor
    · rintro (⟨name, around, hopen, rfl⟩ | ⟨hopen, hroot, rfl⟩)
      · exact .neverClosed hfault hopen
      · exact .noRoot hfault hopen hroot
    · rintro (h | ⟨-, hopen⟩ | ⟨-, hopen, hroot⟩)
      · cases hfault.symm.trans h
      · exact Or.inl ⟨_, _, hopen, rfl⟩
      · exact Or.inr ⟨hopen, hroot, rfl⟩

/-- A reading makes a tree exactly if all of its events fit, no fault has ended it, no element is
open at its end, and there is a root. -/
theorem Reading.exists_element_iff_clean {r : Reading} :
    (∃ e, r.element = .ok e) ↔
      Clean r.events ∧ r.fault = none ∧ openNames r.events = [] ∧
        outermostNames [] r.events ≠ [] := by
  rw [← failure?_eq_none_iff, Option.eq_none_iff_forall_ne_some]
  simp only [Ne, failure?_eq_some_iff, element_eq_error_iff, not_or, not_and]
  constructor
  · intro hnone
    have hclean : Clean r.events := clean_iff.2 fun error => (hnone error).1
    have hend (error : Error) : ¬ EndError r error := (hnone error).2 hclean
    have hfault : r.fault = none :=
      Option.eq_none_iff_forall_ne_some.2 fun error h => hend error (.fault h)
    have hopen : openNames r.events = [] := by
      cases hopen : openNames r.events with
      | nil => rfl
      | cons name around => exact absurd (.neverClosed hfault hopen) (hend _)
    exact ⟨hclean, hfault, hopen, fun hroot => hend _ (.noRoot hfault hopen hroot)⟩
  · rintro ⟨hclean, hfault, hopen, hroot⟩ error
    refine ⟨clean_iff.1 hclean error, fun _ hend => ?_⟩
    cases hend with
    | fault h => cases hfault.symm.trans h
    | neverClosed _ h => cases hopen.symm.trans h
    | noRoot _ _ h => exact hroot h

/-- All events fit exactly if all values can be resolved, no element is ended where none is open,
and at most one is completed outside of all others. -/
theorem clean_iff_values {events : List Event} :
    Clean events ↔
      (∀ event ∈ events, ∀ a ∈ event.attributes, ∃ value, unescape a.value = .ok value) ∧
      (∀ before name after, events = before ++ .closing name :: after → openNames before ≠ []) ∧
      (outermostNames [] events).length ≤ 1 := by
  constructor
  · intro hclean
    refine ⟨fun event hevent a ha => ?_, fun before name after hevents hopen => ?_, ?_⟩
    · obtain ⟨before, after, hevents⟩ := List.append_of_mem hevent
      cases hvalue : unescape a.value with
      | ok value => exact ⟨value, rfl⟩
      | error fault =>
        have hbad : ∃ a ∈ event.attributes, ∃ fault, unescape a.value = .error fault :=
          ⟨a, ha, fault, hvalue⟩
        obtain ⟨b, hfirst⟩ := exists_firstOf_iff.2 hbad
        obtain ⟨fault', hfault'⟩ := hfirst.holds
        exact absurd (.reference hfirst hfault') (hclean before event after hevents _)
    · exact hclean before _ after hevents _ (.unexpectedEnd hopen)
    · obtain ⟨a, hfold⟩ := Assembly.exists_foldlM_iff.2 hclean
      rw [← (Assembly.mirrors_of_foldlM hfold).root, List.length_map]
      cases a.root <;> simp
  · rintro ⟨hvalues, hclosing, hroots⟩ before event after rfl error hoffends
    cases hoffends with
    | @reference _ a fault hfirst hfault =>
      obtain ⟨value, hvalue⟩ := hvalues event (by simp) a hfirst.mem
      cases hfault.symm.trans hvalue
    | unexpectedEnd hopen => exact hclosing before _ after rfl hopen
    | secondRoot _ hroot hcompletes =>
      have hbefore := List.length_pos_iff.2 hroot
      rw [outermostNames_nil_append, outermostNames, hcompletes, List.length_append,
        List.length_append, Option.toList_some, List.length_singleton] at hroots
      omega

/-- A reading makes a tree exactly if no fault has ended it, all values can be resolved, no element
is ended where none is open or is open at the end, and one is completed outside of all others. -/
theorem Reading.exists_element_iff {r : Reading} :
    (∃ e, r.element = .ok e) ↔
      r.fault = none ∧
      (∀ event ∈ r.events, ∀ a ∈ event.attributes, ∃ value, unescape a.value = .ok value) ∧
      (∀ before name after, r.events = before ++ .closing name :: after → openNames before ≠ []) ∧
      openNames r.events = [] ∧ (outermostNames [] r.events).length = 1 := by
  rw [exists_element_iff_clean, clean_iff_values]
  constructor
  · rintro ⟨⟨hvalues, hclosing, hle⟩, hfault, hopen, hroot⟩
    have hpos := List.length_pos_iff.2 hroot
    exact ⟨hfault, hvalues, hclosing, hopen, by omega⟩
  · rintro ⟨hfault, hvalues, hclosing, hopen, hone⟩
    have hroot : outermostNames [] r.events ≠ [] := List.ne_nil_of_length_pos (by omega)
    exact ⟨⟨hvalues, hclosing, hone.le⟩, hfault, hopen, hroot⟩

/-- Events without effect on the tree can be left out. -/
theorem foldlM_filter (events : List Event) (a : Assembly) :
    (events.filter (· ≠ .other)).foldlM Assembly.step a = events.foldlM Assembly.step a := by
  induction events generalizing a with
  | nil => rfl
  | cons event events ih =>
    by_cases hother : event = .other
    · subst hother
      exact ih a
    · rw [List.filter_cons_of_pos (by simp [hother]), List.foldlM_cons, List.foldlM_cons]
      cases a.step event with
      | error e => rfl
      | ok a' => exact ih a'

/-! ## Texts -/

/-- A reader accepts an end tag only for the innermost open element, and takes the same elements to
be open behind an event as the events say. -/
theorem openAfter_eq_ok {opened opened' : List String} {event : Event}
    (h : openAfter opened event = .ok opened') :
    openBehind opened event = opened' ∧
      ∀ name, event = .closing name → ∃ around, opened = name :: around := by
  cases event with
  | opening name raw => exact ⟨Except.ok.inj h, nofun⟩
  | empty name raw => exact ⟨Except.ok.inj h, nofun⟩
  | other => exact ⟨Except.ok.inj h, nofun⟩
  | closing name =>
    cases opened with
    | nil => cases h
    | cons o os =>
      by_cases ho : o = name
      · rw [openAfter, if_pos ho] at h
        refine ⟨Except.ok.inj h, fun n hn => ⟨os, ?_⟩⟩
        rw [ho, Event.closing.inj hn]
      · rw [openAfter, if_neg ho] at h
        cases h

theorem passed_ne_tree {construct : Construct} {rest : Option (List Char)} (fault : TreeFault) :
    passed construct rest ≠ .error (.tree fault) := by
  cases rest <;> simp [passed]

theorem documentType_ne_tree {s : List Char} (fault : TreeFault) :
    documentType s ≠ .error (.tree fault) := by
  simp only [documentType]
  split
  · split
    · simp
    · exact passed_ne_tree fault
  · exact passed_ne_tree fault

/-- Markup that cannot be taken apart is no fault of the tree. -/
theorem markup_ne_tree (s : List Char) (fault : TreeFault) : markup s ≠ .error (.tree fault) := by
  unfold markup
  split
  · exact passed_ne_tree fault
  · exact passed_ne_tree fault
  · exact documentType_ne_tree fault
  · exact documentType_ne_tree fault
  · simp
  · exact passed_ne_tree fault
  · unfold tag
    split <;> simp

/-- Whatever ends the reading of a text, it is no fault of the tree. -/
theorem fault_readText_ne_tree {opened : List String} {s : List Char} (fault : TreeFault) :
    (readText opened s).fault ≠ some (.tree fault) := by
  fun_induction readText opened s with
  | case1 => simp
  | case2 opened s e hmarkup =>
    intro h
    exact markup_ne_tree s fault (hmarkup.trans (congrArg _ (Option.some.inj h)))
  | case3 => simp [Reading.stop]
  | case4 opened s event rest hmarkup opened' hopened ih => exact ih
  | case5 opened s rest hend _ ih => exact ih
  | case6 => simp [Reading.stop]
  | case7 opened c s hc _ ih => exact ih

/-- The end tags of a reading end the innermost open element. -/
theorem exists_open_of_readText {opened : List String} {s : List Char} {before after : List Event}
    {name : String} (h : (readText opened s).events = before ++ .closing name :: after) :
    ∃ around, before.foldl openBehind opened = name :: around := by
  fun_induction readText opened s generalizing before with
  | case1 | case2 | case3 | case6 =>
    exact absurd h.symm (List.append_ne_nil_of_right_ne_nil _ (List.cons_ne_nil _ _))
  | case4 opened s event rest hmarkup opened' hopened ih =>
    obtain ⟨rfl, hclosing⟩ := openAfter_eq_ok hopened
    rcases List.cons_eq_append_iff.1 h with ⟨rfl, hevents⟩ | ⟨more, rfl, hmore⟩
    · exact hclosing name (List.cons.inj hevents).1.symm
    · exact ih hmore
  | case5 opened s rest hend _ ih =>
    rcases List.cons_eq_append_iff.1 h with ⟨rfl, hevents⟩ | ⟨more, rfl, hmore⟩
    · cases hevents
    · have hrest : ∃ around, more.foldl openBehind opened = name :: around := ih hmore
      exact hrest
  | case7 opened c s hc _ ih => exact ih h

/-- The error of an end tag without a start tag is not met in a reading that accepts no such tag. -/
theorem Reading.element_ne_unexpectedEnd {r : Reading}
    (hclosing : ∀ before name after, r.events = before ++ .closing name :: after →
      openNames before ≠ [])
    (hfault : r.fault ≠ some (.tree .unexpectedEnd)) :
    r.element ≠ .error (.tree .unexpectedEnd) := by
  rw [Ne, element_eq_error_iff]
  rintro (⟨before, event, after, hevents, -, hoffends⟩ | ⟨-, hend⟩)
  · cases hoffends with
    | unexpectedEnd hopen => exact hclosing before _ after hevents hopen
  · cases hend with
    | fault h => exact hfault h

/-- **Events that make a tree.** A reading makes a tree exactly if no fault has ended it, all values
can be resolved, no element is ended where none is open or is open at the end, and one element is
completed outside of all others. The outline of the tree then has an entry for each start tag, in
order, as deep as there are open elements before the tag. Otherwise the error is that of the first
event that does not fit behind those before it, or else that of the end. Events that are no tags do
not matter. In the reading of a text each end tag is that of the innermost open element, so that
none is too many. -/
theorem element_of_events :
    (∀ r : Reading,
      ((∃ e, r.element = .ok e) ↔
        r.fault = none ∧
        (∀ event ∈ r.events, ∀ a ∈ event.attributes, ∃ value, unescape a.value = .ok value) ∧
        (∀ before name after, r.events = before ++ .closing name :: after →
          openNames before ≠ []) ∧
        openNames r.events = [] ∧ (outermostNames [] r.events).length = 1) ∧
      (∀ e, r.element = .ok e →
        List.Forall₂ ShowsAt (startTags 0 r.events) (e.outline 0) ∧
        ∀ before event after, r.events = before ++ event :: after →
          startTags 0 r.events =
            startTags 0 before ++ startTags (openNames before).length (event :: after)) ∧
      (∀ error, r.element = .error error ↔
        FirstOffence r.events error ∨ Clean r.events ∧ EndError r error) ∧
      Reading.element ⟨r.events.filter (· ≠ .other), r.fault⟩ = r.element) ∧
    ∀ text,
      (∀ before name after, (Reading.ofText text).events = before ++ .closing name :: after →
        ∃ around, openNames before = name :: around) ∧
      parse text ≠ .error (.tree .unexpectedEnd) := by
  constructor
  · intro r
    refine ⟨Reading.exists_element_iff,
      fun e he => ⟨(Reading.forall₂_outline he).2, fun before event after h => ?_⟩,
      fun error => Reading.element_eq_error_iff, ?_⟩
    · rw [h]
      exact startTags_append [] before (event :: after)
    · simp only [Reading.element, foldlM_filter]
  · intro text
    have hclosing (before : List Event) (name : String) (after : List Event)
        (h : (Reading.ofText text).events = before ++ .closing name :: after) :
        ∃ around, openNames before = name :: around := by
      rw [Reading.ofText_eq] at h
      exact exists_open_of_readText h
    refine ⟨hclosing, Reading.element_ne_unexpectedEnd (fun before name after h hopen => ?_) ?_⟩
    · obtain ⟨around, haround⟩ := hclosing before name after h
      cases haround.symm.trans hopen
    · rw [Reading.ofText_eq]
      exact fault_readText_ne_tree .unexpectedEnd

/-- The events of an element with a comment and an empty element inside. -/
def nestedReading : Reading :=
  ⟨[.opening "a" [⟨"k", "1&lt;2"⟩], .other, .empty "b" [], .closing "a"], none⟩

/-- The tree of these events. -/
def nestedTree : Element :=
  ⟨"a", [("k", "1<2")], [⟨"b", [], []⟩]⟩

/-- The events of two elements, the second with a bad reference, and a fault behind them. -/
def twofoldReading : Reading :=
  ⟨[.empty "a" [], .empty "b" [⟨"k", "&"⟩], .closing "c"], some (.form .unclosedReference)⟩

/-- Of several faults the first one counts, and of one event its values come first, as
`element_of_events` says. -/
theorem nestedReading_element :
    nestedReading.element = .ok nestedTree ∧
      List.Forall₂ ShowsAt (startTags 0 nestedReading.events) (nestedTree.outline 0) ∧
      twofoldReading.element = .error (.reference (.unterminated 0 1)) ∧
      FirstOffence twofoldReading.events (.reference (.unterminated 0 1)) ∧
      parse "<a/></a>" ≠ .error (.tree .unexpectedEnd) := by
  have hnested : nestedReading.element = .ok nestedTree := by decide +kernel
  have htwofold : twofoldReading.element = .error (.reference (.unterminated 0 1)) := by
    decide +kernel
  obtain ⟨hreadings, htexts⟩ := element_of_events
  obtain ⟨-, houtline, -, -⟩ := hreadings nestedReading
  obtain ⟨-, -, herrors, -⟩ := hreadings twofoldReading
  refine ⟨hnested, (houtline _ hnested).1, htwofold, ?_, (htexts _).2⟩
  rcases (herrors _).1 htwofold with hfirst | ⟨-, hend⟩
  · exact hfirst
  · cases hend with
    | fault h => cases h

end SoapTypes.Xml
