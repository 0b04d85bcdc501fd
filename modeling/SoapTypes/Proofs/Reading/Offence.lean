import Mathlib.Data.List.Induction
import SoapTypes.Proofs.FirstMember
import SoapTypes.Proofs.Reading.Outline

/-!
# Events that do not fit

Whether events make a tree, and which of them is at fault if they do not, can be told without any
tree: from the names of the elements that are open behind each event, and from the names of those
that are completed outside of all others.
-/

namespace SoapTypes.Xml

/-! ## Open and outermost elements -/

/-- The attributes of the start tag that an event is, if it is one. -/
def Event.attributes : Event → List RawAttribute
  | .opening _ attributes | .empty _ attributes => attributes
  | .closing _ | .other => []

/-- The names of the open elements behind an event, the innermost first. -/
def openBehind (opened : List String) : Event → List String
  | .opening name _ => name :: opened
  | .closing _ => opened.tail
  | .empty _ _ | .other => opened

/-- The name of the element that an event completes, if it does. -/
def completed? (opened : List String) : Event → Option String
  | .empty name _ => some name
  | .closing _ => opened.head?
  | .opening _ _ | .other => none

/-- The name of the element that an event completes outside of all others, if it does. -/
def outermost? (opened : List String) (event : Event) : Option String :=
  if openBehind opened event = [] then completed? opened event else none

section Outermost

variable (opened : List String) (name : String) (raw : List RawAttribute)

@[simp] theorem outermost?_opening : outermost? opened (.opening name raw) = none := by
  simp [outermost?, completed?]

@[simp] theorem outermost?_empty :
    outermost? opened (.empty name raw) = if opened = [] then some name else none :=
  rfl

@[simp] theorem outermost?_closing :
    outermost? opened (.closing name) = if opened.tail = [] then opened.head? else none :=
  rfl

@[simp] theorem outermost?_other : outermost? opened .other = none := by
  simp [outermost?, completed?]

end Outermost

/-- The names of the elements that are open behind events, the innermost first. -/
def openNames (events : List Event) : List String :=
  events.foldl openBehind []

/-- The names of the elements that events complete outside of all others, in order. -/
def outermostNames (opened : List String) : List Event → List String
  | [] => []
  | event :: events =>
    (outermost? opened event).toList ++ outermostNames (openBehind opened event) events

@[simp] theorem openNames_concat (events : List Event) (event : Event) :
    openNames (events ++ [event]) = openBehind (openNames events) event := by
  simp [openNames]

theorem outermostNames_append (opened : List String) (events events' : List Event) :
    outermostNames opened (events ++ events') =
      outermostNames opened events ++ outermostNames (events.foldl openBehind opened) events' := by
  induction events generalizing opened with
  | nil => rfl
  | cons event events ih =>
    rw [List.cons_append, outermostNames, ih, outermostNames, List.append_assoc, List.foldl_cons]

theorem outermostNames_nil_append (events events' : List Event) :
    outermostNames [] (events ++ events') =
      outermostNames [] events ++ outermostNames (openNames events) events' :=
  outermostNames_append [] events events'

@[simp] theorem outermostNames_concat (events : List Event) (event : Event) :
    outermostNames [] (events ++ [event]) =
      outermostNames [] events ++ (outermost? (openNames events) event).toList := by
  simp [outermostNames_nil_append, outermostNames]

/-- The depth of a start tag is the number of elements that are open before it. -/
theorem startTags_append (opened : List String) (events events' : List Event) :
    startTags opened.length (events ++ events') =
      startTags opened.length events ++
        startTags (events.foldl openBehind opened).length events' := by
  induction events generalizing opened with
  | nil => rfl
  | cons event events ih =>
    have hrest := ih (openBehind opened event)
    cases event with
    | opening name raw => exact congrArg _ hrest
    | empty name raw => exact congrArg _ hrest
    | closing name =>
      rw [openBehind, List.length_tail] at hrest
      exact hrest
    | other => exact hrest

/-! ## Events that do not fit -/

/-- An event does not fit behind others: it has a value with a bad reference, the first such one
counts, or ends an element where none is open, or completes a second outermost element. -/
inductive Offends (before : List Event) : Event → Error → Prop
  | reference {event : Event} {a : RawAttribute} {fault : ReferenceFault}
      (hfirst : FirstOf (fun a => ∃ fault, unescape a.value = .error fault) event.attributes a)
      (hfault : unescape a.value = .error fault) : Offends before event (.reference fault)
  | unexpectedEnd {name : String} (hopen : openNames before = []) :
      Offends before (.closing name) (.tree .unexpectedEnd)
  | secondRoot {event : Event} {name : String}
      (hvalues : ∀ a ∈ event.attributes, ∃ value, unescape a.value = .ok value)
      (hroot : outermostNames [] before ≠ [])
      (hcompletes : outermost? (openNames before) event = some name) :
      Offends before event (.tree (.secondRoot name))

/-- No event fails to fit behind those before it. -/
def Clean (events : List Event) : Prop :=
  ∀ before event after, events = before ++ event :: after → ∀ error, ¬ Offends before event error

/-- The error is that of the first event that does not fit behind those before it. -/
def FirstOffence (events : List Event) (error : Error) : Prop :=
  ∃ before event after, events = before ++ event :: after ∧ Clean before ∧
    Offends before event error

theorem clean_nil : Clean [] := by
  intro before event after h
  cases List.append_ne_nil_of_right_ne_nil _ (List.cons_ne_nil _ _) h.symm

theorem not_firstOffence_nil (error : Error) : ¬ FirstOffence [] error := by
  rintro ⟨before, event, after, h, -, -⟩
  cases List.append_ne_nil_of_right_ne_nil _ (List.cons_ne_nil _ _) h.symm

/-- An event among others is the last of them or stands before the last. -/
theorem eq_or_exists_of_concat_eq {events before after : List Event} {last event : Event}
    (h : events ++ [last] = before ++ event :: after) :
    (before = events ∧ event = last) ∨ ∃ rest, events = before ++ event :: rest := by
  rcases List.eq_nil_or_concat after with rfl | ⟨rest, last', rfl⟩
  · obtain ⟨hbefore, hlast⟩ := List.append_inj' h rfl
    exact Or.inl ⟨hbefore.symm, (List.cons.inj hlast).1.symm⟩
  · rw [List.concat_eq_append, ← List.cons_append, ← List.append_assoc] at h
    exact Or.inr ⟨rest, (List.append_inj' h rfl).1⟩

theorem clean_concat_iff {events : List Event} {last : Event} :
    Clean (events ++ [last]) ↔ Clean events ∧ ∀ error, ¬ Offends events last error := by
  constructor
  · intro hclean
    refine ⟨fun before event after hevents => ?_, hclean events last [] rfl⟩
    exact hclean before event (after ++ [last]) (by rw [hevents, List.append_assoc]; rfl)
  · rintro ⟨hclean, hlast⟩ before event after h
    rcases eq_or_exists_of_concat_eq h with ⟨rfl, rfl⟩ | ⟨rest, hevents⟩
    · exact hlast
    · exact hclean before event rest hevents

theorem firstOffence_concat_iff {events : List Event} {last : Event} {error : Error} :
    FirstOffence (events ++ [last]) error ↔
      FirstOffence events error ∨ Clean events ∧ Offends events last error := by
  constructor
  · rintro ⟨before, event, after, h, hclean, hoffends⟩
    rcases eq_or_exists_of_concat_eq h with ⟨rfl, rfl⟩ | ⟨rest, hevents⟩
    · exact Or.inr ⟨hclean, hoffends⟩
    · exact Or.inl ⟨before, event, rest, hevents, hclean, hoffends⟩
  · rintro (⟨before, event, after, rfl, hclean, hoffends⟩ | ⟨hclean, hoffends⟩)
    · exact ⟨before, event, after ++ [last], by simp, hclean, hoffends⟩
    · exact ⟨events, last, [], rfl, hclean, hoffends⟩

/-- Unless all events fit there is a first one that does not. -/
theorem clean_iff {events : List Event} : Clean events ↔ ∀ error, ¬ FirstOffence events error := by
  constructor
  · rintro hclean error ⟨before, event, after, hevents, -, hoffends⟩
    exact hclean before event after hevents error hoffends
  · intro hnone
    induction events using List.reverseRecOn with
    | nil => exact clean_nil
    | append_singleton events event ih =>
      simp only [firstOffence_concat_iff, not_or] at hnone
      have hclean := ih fun error => (hnone error).1
      exact clean_concat_iff.2 ⟨hclean, fun error hoffends => (hnone error).2 ⟨hclean, hoffends⟩⟩

/-! ## Attributes -/

/-- An attribute is resolved exactly if its value can be. -/
theorem exists_resolve_iff {a : RawAttribute} :
    (∃ resolved, a.resolve = .ok resolved) ↔ ∃ value, unescape a.value = .ok value := by
  unfold RawAttribute.resolve
  cases unescape a.value <;> simp

theorem resolve_eq_error_iff {a : RawAttribute} {error : Error} :
    a.resolve = .error error ↔
      ∃ fault, unescape a.value = .error fault ∧ error = .reference fault := by
  unfold RawAttribute.resolve
  cases unescape a.value <;> simp [eq_comm]

/-- The attributes of a tag are resolved exactly if their values can be. -/
theorem exists_mapM_resolve_iff {raw : List RawAttribute} :
    (∃ attributes, raw.mapM RawAttribute.resolve = .ok attributes) ↔
      ∀ a ∈ raw, ∃ value, unescape a.value = .ok value := by
  simp only [exists_mapM_eq_ok_iff, exists_resolve_iff]

/-- Otherwise the first value with a bad reference tells the error. -/
theorem mapM_resolve_eq_error_iff {raw : List RawAttribute} {error : Error} :
    raw.mapM RawAttribute.resolve = .error error ↔
      ∃ a fault, FirstOf (fun a => ∃ fault, unescape a.value = .error fault) raw a ∧
        unescape a.value = .error fault ∧ error = .reference fault := by
  have hfails : ∀ a ∈ raw, (∃ fault, unescape a.value = .error fault) ↔
      ∃ error, a.resolve = .error error := fun a _ => by
    simp [resolve_eq_error_iff]
  simp only [mapM_eq_error_iff_firstOf hfails, resolve_eq_error_iff, exists_and_left]

/-! ## Offences by kind of event -/

section Offends

variable {before : List Event} {name : String} {raw : List RawAttribute} {error : Error}

theorem offends_opening_iff :
    Offends before (.opening name raw) error ↔ raw.mapM RawAttribute.resolve = .error error := by
  rw [mapM_resolve_eq_error_iff]
  constructor
  · intro hoffends
    cases hoffends with
    | reference hfirst hfault => exact ⟨_, _, hfirst, hfault, rfl⟩
    | secondRoot _ _ hcompletes => simp at hcompletes
  · rintro ⟨a, fault, hfirst, hfault, rfl⟩
    exact .reference hfirst hfault

theorem offends_empty_iff :
    Offends before (.empty name raw) error ↔
      raw.mapM RawAttribute.resolve = .error error ∨
        (∃ attributes, raw.mapM RawAttribute.resolve = .ok attributes) ∧ openNames before = [] ∧
          outermostNames [] before ≠ [] ∧ error = .tree (.secondRoot name) := by
  rw [mapM_resolve_eq_error_iff, exists_mapM_resolve_iff]
  constructor
  · intro hoffends
    cases hoffends with
    | reference hfirst hfault => exact Or.inl ⟨_, _, hfirst, hfault, rfl⟩
    | secondRoot hvalues hroot hcompletes =>
      obtain ⟨hopen, hname⟩ := Option.ite_none_right_eq_some.1 hcompletes
      obtain rfl := Option.some.inj hname
      exact Or.inr ⟨hvalues, hopen, hroot, rfl⟩
  · rintro (⟨a, fault, hfirst, hfault, rfl⟩ | ⟨hvalues, hopen, hroot, rfl⟩)
    · exact .reference hfirst hfault
    · exact .secondRoot hvalues hroot (by simp [hopen])

theorem offends_closing_iff :
    Offends before (.closing name) error ↔
      (openNames before = [] ∧ error = .tree .unexpectedEnd) ∨
        ∃ opened, openNames before = [opened] ∧ outermostNames [] before ≠ [] ∧
          error = .tree (.secondRoot opened) := by
  constructor
  · intro hoffends
    cases hoffends with
    | reference hfirst => cases hfirst.mem
    | unexpectedEnd hopen => exact Or.inl ⟨hopen, rfl⟩
    | @secondRoot _ opened _ hroot hcompletes =>
      obtain ⟨htail, hhead⟩ := Option.ite_none_right_eq_some.1 hcompletes
      have hopen : openNames before = opened :: (openNames before).tail :=
        List.eq_cons_of_mem_head? hhead
      have hnone : (openNames before).tail = [] := htail
      exact Or.inr ⟨opened, hnone ▸ hopen, hroot, rfl⟩
  · rintro (⟨hopen, rfl⟩ | ⟨opened, hopen, hroot, rfl⟩)
    · exact .unexpectedEnd hopen
    · exact .secondRoot nofun hroot (by simp [hopen])

theorem not_offends_other : ¬ Offends before .other error := by
  intro hoffends
  cases hoffends with
  | reference hfirst => cases hfirst.mem
  | secondRoot _ _ hcompletes => simp at hcompletes

end Offends

end SoapTypes.Xml
