import SoapTypes.Proofs.Reading.Outline
import SoapTypes.Proofs.Reading.RoundTrip

/-!
# The start tags of a text

Which start tags stand in a text is told without a reader: a tag goes from its bracket up to the
first `>` outside of quotes, and what begins with a mark of another construct is none. A reader that
meets no fault takes exactly these tags, in their order.
-/

namespace SoapTypes.Xml

/-- The start tags in a text, each as what stands between its brackets. Text, end tags and
constructs without effect are passed over. -/
inductive TagsIn : List Char → List (List Char) → Prop
  | nil : TagsIn [] []
  | text {c : Char} {s : List Char} {tags : List (List Char)} (hc : c ≠ '<') (h : TagsIn s tags) :
      TagsIn (c :: s) tags
  | start {content s : List Char} {tags : List (List Char)} (hbalanced : Balanced content)
      (hslash : content.head? ≠ some '/') (hbang : content.head? ≠ some '!')
      (hquestion : content.head? ≠ some '?') (h : TagsIn s tags) :
      TagsIn ('<' :: (content ++ '>' :: s)) (content :: tags)
  | close {name s : List Char} {tags : List (List Char)} (hbalanced : Balanced ('/' :: name))
      (h : TagsIn s tags) : TagsIn ('<' :: ('/' :: name ++ '>' :: s)) tags
  | other {construct s : List Char} {tags : List (List Char)}
      (hother : markup construct = .ok (.other, s)) (h : TagsIn s tags) :
      TagsIn ('<' :: construct) tags

/-- The content of a start tag without the slash that makes its element empty. -/
def tagBody (content : List Char) : List Char :=
  if content.getLast? = some '/' then content.dropLast else content

/-- What the content of a start tag tells. -/
def StartTag.ofContent (content : List Char) : StartTag :=
  ⟨tagName (tagBody content), tagAttributes (tagBody content)⟩

/-- A reader takes from a start tag what its content tells. -/
theorem exists_startTags_tagEvent {content : List Char} (hslash : content.head? ≠ some '/')
    (depth : Nat) : ∃ deeper, ∀ events, startTags depth (tagEvent content :: events) =
      (depth, .ofContent content) :: startTags deeper events := by
  rw [tagEvent_startTag hslash, StartTag.ofContent, tagBody]
  split
  · exact ⟨depth, fun _ => rfl⟩
  · exact ⟨depth + 1, fun _ => rfl⟩

/-- Text without brackets holds no tags. -/
theorem TagsIn.append_left {words s : List Char} {tags : List (List Char)} (hwords : '<' ∉ words)
    (h : TagsIn s tags) : TagsIn (words ++ s) tags := by
  induction words with
  | nil => exact h
  | cons c words ih =>
    rw [List.mem_cons, not_or] at hwords
    exact .text (Ne.symm hwords.1) (ih hwords.2)

section Reading

variable {opened : List String} {s : List Char}

/-- Where reading meets no fault it goes on behind a construct. -/
theorem exists_readText_markup {event : Event} {rest : List Char}
    (hs : markup s = .ok (event, rest)) (hfault : (readText opened ('<' :: s)).fault = none) :
    ∃ opened', readText opened ('<' :: s) = (readText opened' rest).prepend [event] := by
  cases hopened : openAfter opened event with
  | ok opened' => exact ⟨opened', readText_markup hs hopened⟩
  | error fault =>
    rw [readText, if_pos rfl] at hfault
    split at hfault
    · cases hfault
    · rename_i h
      obtain ⟨rfl, rfl⟩ := Prod.mk.inj (Except.ok.inj (hs.symm.trans h))
      rw [hopened] at hfault
      cases hfault

/-- A reference begins no markup and no other reference before it ends. -/
theorem exists_span_reference {rest : List Char}
    (hend : s.dropWhile (fun c => c != ';' && c != '&' && c != '<') = ';' :: rest) :
    ∃ words, s = words ++ rest ∧ '<' ∉ words ∧ '&' ∉ words := by
  obtain ⟨hs, hinside, -⟩ := eq_append_of_dropWhile hend
  have hmarkup : '<' ∉ s.takeWhile fun c => c != ';' && c != '&' && c != '<' :=
    fun hmem => absurd (hinside '<' hmem) (by decide)
  have hreference : '&' ∉ s.takeWhile fun c => c != ';' && c != '&' && c != '<' :=
    fun hmem => absurd (hinside '&' hmem) (by decide)
  refine ⟨s.takeWhile (fun c => c != ';' && c != '&' && c != '<') ++ [';'], ?_, ?_, ?_⟩
  · rw [List.append_assoc]
    exact hs
  · simp [hmarkup]
  · simp [hreference]

/-- Where reading meets no fault it goes on behind a reference. -/
theorem exists_readText_reference (hfault : (readText opened ('&' :: s)).fault = none) :
    ∃ words rest, s = words ++ rest ∧ '<' ∉ words ∧ '&' ∉ words ∧
      readText opened ('&' :: s) = (readText opened rest).prepend [.other] := by
  rw [readText, if_neg (by decide), if_pos rfl] at hfault ⊢
  split at hfault
  · rename_i rest hend
    obtain ⟨words, hs, hmarkup, hreference⟩ := exists_span_reference hend
    exact ⟨words, rest, hs, hmarkup, hreference, rfl⟩
  · cases hfault

end Reading

/-- A reader that meets no fault takes the start tags of the text. -/
theorem TagsIn.map_startTags {s : List Char} {tags : List (List Char)} (h : TagsIn s tags)
    {opened : List String} (hfault : (readText opened s).fault = none) (depth : Nat) :
    (startTags depth (readText opened s).events).map (·.2) = tags.map StartTag.ofContent := by
  induction h generalizing opened depth with
  | nil =>
    rw [readText]
    rfl
  -- A reader takes a reference as a whole, the judgment character by character. What stands before
  -- its semicolon is text to both, so reading may as well start there.
  | @text c s tags hc _ ih =>
    by_cases hreference : c = '&'
    · subst hreference
      obtain ⟨words, rest, rfl, hmarkup, hplain, hread⟩ := exists_readText_reference hfault
      rw [hread] at hfault ⊢
      rw [← readText_append hmarkup hplain rest] at hfault ⊢
      exact ih hfault depth
    · have hskip : readText opened ([c] ++ s) = readText opened s :=
        readText_append (by simpa using Ne.symm hc) (by simpa using Ne.symm hreference) s
      rw [List.singleton_append] at hskip
      rw [hskip] at hfault ⊢
      exact ih hfault depth
  | @start content s tags hbalanced hslash hbang hquestion _ ih =>
    obtain ⟨opened', hread⟩ :=
      exists_readText_markup (markup_of_balanced hbalanced hbang hquestion s) hfault
    obtain ⟨deeper, htag⟩ := exists_startTags_tagEvent hslash depth
    rw [hread] at hfault ⊢
    rw [Reading.prepend, List.singleton_append, htag, List.map_cons, List.map_cons,
      ih hfault deeper]
  | @close name s tags hbalanced _ ih =>
    obtain ⟨opened', hread⟩ :=
      exists_readText_markup (markup_of_balanced hbalanced (by simp) (by simp) s) hfault
    rw [hread] at hfault ⊢
    exact ih hfault (depth - 1)
  | other hother _ ih =>
    obtain ⟨opened', hread⟩ := exists_readText_markup hother hfault
    rw [hread] at hfault ⊢
    exact ih hfault depth

/-- A construct that is passed over has no effect. -/
theorem eq_other_of_passed {construct : Construct} {behind : Option (List Char)} {event : Event}
    {rest : List Char} (h : passed construct behind = .ok (event, rest)) : event = .other := by
  cases behind with
  | none => cases h
  | some _ =>
    cases h
    rfl

theorem eq_other_of_documentType {s rest : List Char} {event : Event}
    (h : documentType s = .ok (event, rest)) : event = .other := by
  simp only [documentType] at h
  split at h
  · split at h
    · cases h
    · exact eq_other_of_passed h
  · exact eq_other_of_passed h

/-- A construct that can be read has no effect, or it is a tag and ends behind its balanced
content. -/
theorem markup_cases {s rest : List Char} {event : Event} (h : markup s = .ok (event, rest)) :
    event = .other ∨ ∃ content, s = content ++ '>' :: rest ∧ Balanced content ∧
      content.head? ≠ some '!' ∧ content.head? ≠ some '?' := by
  unfold markup at h
  split at h
  · exact Or.inl (eq_other_of_passed h)
  · exact Or.inl (eq_other_of_passed h)
  · exact Or.inl (eq_other_of_documentType h)
  · exact Or.inl (eq_other_of_documentType h)
  · cases h
  · exact Or.inl (eq_other_of_passed h)
  · next hbang hquestion =>
    right
    unfold tag at h
    split at h
    · next content _ hsplit =>
      obtain ⟨rfl, rfl⟩ := Prod.mk.inj (Except.ok.inj h)
      obtain ⟨rfl, hbalanced⟩ := balancedFrom_of_splitTag hsplit
      refine ⟨content, rfl, hbalanced, fun hfirst => ?_, fun hfirst => ?_⟩
      · obtain ⟨more, rfl⟩ := List.head?_eq_some_iff.1 hfirst
        exact hbang _ rfl
      · obtain ⟨more, rfl⟩ := List.head?_eq_some_iff.1 hfirst
        exact hquestion _ rfl
    · cases h
    · cases h

/-- A text in which a reader meets no fault is made of such constructs. -/
theorem exists_tagsIn {opened : List String} {s : List Char}
    (hfault : (readText opened s).fault = none) : ∃ tags, TagsIn s tags := by
  fun_induction readText opened s with
  | case1 => exact ⟨[], .nil⟩
  | case2 | case3 | case6 => cases hfault
  | case4 opened s event rest hmarkup _ _ ih =>
    obtain ⟨tags, htags⟩ := ih hfault
    rcases markup_cases hmarkup with rfl | ⟨content, rfl, hbalanced, hbang, hquestion⟩
    · exact ⟨tags, .other hmarkup htags⟩
    · by_cases hslash : content.head? = some '/'
      · obtain ⟨name, rfl⟩ := List.head?_eq_some_iff.1 hslash
        exact ⟨tags, .close hbalanced htags⟩
      · exact ⟨content :: tags, .start hbalanced hslash hbang hquestion htags⟩
  | case5 opened s rest hend _ ih =>
    obtain ⟨tags, htags⟩ := ih hfault
    obtain ⟨words, rfl, hmarkup, -⟩ := exists_span_reference hend
    exact ⟨tags, .text (by decide) (htags.append_left hmarkup)⟩
  | case7 opened c s hc _ ih =>
    obtain ⟨tags, htags⟩ := ih hfault
    exact ⟨tags, .text hc htags⟩

end SoapTypes.Xml
