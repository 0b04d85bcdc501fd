import SoapTypes.Proofs.Reading.StartTags

/-!
# Attributes that are passed over

The attributes of a tag are those that can be found behind its name: what stands between them is
passed over, whatever it is. So an element has all the attributes of its tag if they are written one
after the other, each under a key of its own, and only then is nothing passed over but white space.
-/

namespace SoapTypes.Xml

/-! ## Attributes in a text -/

/-- Attributes that stand in a text in order, each with a key, an equals sign that white space may
surround, and a value in quotes. Before each of them and behind the last stands what is given to
stand between them. -/
inductive PairsAmong (between : List Char → Prop) : List Char → List RawAttribute → Prop
  | nil {gap : List Char} (hgap : between gap) : PairsAmong between gap []
  | cons {gap before after value s : List Char} {first q : Char} {more : List Char}
      {pairs : List RawAttribute} (hgap : between gap) (hfirst : isSpace first = false)
      (hmore : ∀ c ∈ more, inKey c = true) (hbefore : Spaces before) (hafter : Spaces after)
      (hq : isQuote q = true) (hvalue : q ∉ value) (h : PairsAmong between s pairs) :
      PairsAmong between
        (gap ++ first :: (more ++ (before ++ '=' :: (after ++ q :: (value ++ q :: s)))))
        (⟨String.ofList (first :: more), String.ofList value⟩ :: pairs)

theorem pairsAmong_nil_iff {between : List Char → Prop} {s : List Char} :
    PairsAmong between s [] ↔ between s := by
  constructor
  · intro h
    cases h with
    | nil hgap => exact hgap
  · exact .nil

/-- Nothing is known of what stands between attributes. -/
def Anything (_ : List Char) : Prop := True

/-- Attributes that stand in the end of a text stand in the text. -/
theorem PairsAmong.append_left {s : List Char} {pairs : List RawAttribute}
    (h : PairsAmong Anything s pairs) (skipped : List Char) :
    PairsAmong Anything (skipped ++ s) pairs := by
  cases h with
  | nil _ => exact .nil trivial
  | cons _ hfirst hmore hbefore hafter hq hvalue h =>
    rw [← List.append_assoc]
    exact .cons trivial hfirst hmore hbefore hafter hq hvalue h

theorem PairsAmong.of_suffix {s t : List Char} {pairs : List RawAttribute}
    (h : PairsAmong Anything t pairs) (hsuffix : t <:+ s) : PairsAmong Anything s pairs := by
  obtain ⟨skipped, rfl⟩ := hsuffix
  exact h.append_left skipped

/-- What is found in a text: attributes that stand there in order, each under a new key. -/
structure Found (known : List (List Char)) (s : List Char) (found : List RawAttribute) : Prop where
  among : PairsAmong Anything s found
  distinct : (found.map (·.key)).Nodup
  unknown : ∀ a ∈ found, a.key.toList ∉ known

/-- What is found in the end of a text where more keys are known is found in the text. -/
theorem Found.of_suffix {known known' : List (List Char)} {s t : List Char}
    {found : List RawAttribute} (h : Found known' t found) (hknown : known ⊆ known')
    (hsuffix : t <:+ s) : Found known s found :=
  ⟨h.among.of_suffix hsuffix, h.distinct, fun a ha hmem => h.unknown a ha (hknown hmem)⟩

/-- Where each search finds what it looks for, an attribute stands in front. -/
theorem PairsAmong.of_searches {between : List Char → Prop} {first q close : Char}
    {s afterFirst afterSign written rest : List Char} {pairs : List RawAttribute}
    (hgap : between (s.takeWhile isSpace)) (hkey : s.dropWhile isSpace = first :: afterFirst)
    (hsign : (afterFirst.dropWhile inKey).dropWhile isSpace = '=' :: afterSign)
    (hvalue : afterSign.dropWhile isSpace = q :: written) (hq : isQuote q = true)
    (hclose : written.dropWhile (· != q) = close :: rest) (h : PairsAmong between rest pairs) :
    PairsAmong between s (⟨String.ofList (first :: afterFirst.takeWhile inKey),
      String.ofList (written.takeWhile (· != q))⟩ :: pairs) := by
  obtain ⟨hs, -, hfirst⟩ := eq_append_of_dropWhile hkey
  obtain ⟨hbefore, hblank, -⟩ := eq_append_of_dropWhile hsign
  obtain ⟨hafter, hblank', -⟩ := eq_append_of_dropWhile hvalue
  obtain ⟨hwritten, hinside, hend⟩ := eq_append_of_dropWhile hclose
  obtain rfl : close = q := by simpa using hend
  have hclosed : close ∉ written.takeWhile (· != close) := fun hmem => by
    simpa using hinside close hmem
  have hdivided : s = s.takeWhile isSpace ++ first :: (afterFirst.takeWhile inKey ++
      ((afterFirst.dropWhile inKey).takeWhile isSpace ++ '=' :: (afterSign.takeWhile isSpace ++
        close :: (written.takeWhile (· != close) ++ close :: rest)))) := by
    rw [← hwritten, ← hafter, ← hbefore, List.takeWhile_append_dropWhile, ← hs]
  rw [hdivided]
  exact .cons hgap hfirst (fun c hc => List.mem_takeWhile_imp hc) hblank hblank' hq hclosed h

/-- What follows a key stands in the end of the text. -/
theorem suffix_of_key {first : Char} {s afterFirst t : List Char}
    (hkey : s.dropWhile isSpace = first :: afterFirst)
    (h : (afterFirst.dropWhile inKey).dropWhile isSpace = t) : t <:+ s := by
  have hfirst : first :: afterFirst <:+ s := hkey ▸ List.dropWhile_suffix isSpace
  have hbehind : t <:+ afterFirst :=
    h ▸ (List.dropWhile_suffix isSpace).trans (List.dropWhile_suffix inKey)
  exact hbehind.trans ((List.suffix_cons first afterFirst).trans hfirst)

theorem skipWord_suffix (s : List Char) : skipWord s <:+ s :=
  List.dropWhile_suffix _

theorem found_nil (known : List (List Char)) (s : List Char) : Found known s [] :=
  ⟨.nil trivial, .nil, nofun⟩

/-- **Attributes that are found.** Whatever a text is, what is found in it are attributes that stand
there in order, no two under one key. -/
theorem found_rawAttributes (known : List (List Char)) (s : List Char) :
    Found known s (rawAttributes known s) := by
  -- Only one case keeps an attribute (`case6`). The others end the search, or go on in the end of
  -- the text with the keys that are known by then.
  fun_induction rawAttributes known s with
  | case1 | case2 | case4 | case5 => exact found_nil _ _
  | case3 known s first afterFirst hkey _ afterSign hsign _ ih =>
    have hrest : skipWord afterSign <:+ s := (skipWord_suffix afterSign).trans
      ((List.suffix_cons '=' afterSign).trans (suffix_of_key hkey hsign))
    exact ih.of_suffix (List.Subset.refl _) hrest
  | case6 known s first afterFirst hkey key afterSign hsign hnew q written hvalue hq close rest
      hclose ih =>
    refine ⟨.of_searches trivial hkey hsign hvalue hq hclose ih.among, ?_, ?_⟩
    · rw [List.map_cons, List.nodup_cons]
      refine ⟨fun hmem => ?_, ih.distinct⟩
      obtain ⟨a, ha, hsame⟩ := List.mem_map.1 hmem
      exact ih.unknown a ha (by simp [hsame, key])
    · rw [List.forall_mem_cons]
      exact ⟨by simpa using hnew, fun a ha hmem => ih.unknown a ha (List.mem_cons_of_mem _ hmem)⟩
  | case7 known s first afterFirst hkey key afterSign hsign _ q written hvalue _ ih =>
    have hwritten : written <:+ afterSign := (List.suffix_cons q written).trans
      (hvalue ▸ List.dropWhile_suffix isSpace)
    have hrest : skipWord written <:+ s := (skipWord_suffix written).trans (hwritten.trans
      ((List.suffix_cons '=' afterSign).trans (suffix_of_key hkey hsign)))
    exact ih.of_suffix (List.subset_cons_self key known) hrest
  | case8 known s first afterFirst hkey c rest _ hsign ih =>
    exact ih.of_suffix (List.Subset.refl _) (suffix_of_key hkey hsign)

/-- A key ends before the white space or the equals sign behind it. -/
theorem span_key {more before : List Char} (hmore : ∀ c ∈ more, inKey c = true)
    (hbefore : Spaces before) (rest : List Char) :
    (more ++ (before ++ '=' :: rest)).takeWhile inKey = more ∧
      (more ++ (before ++ '=' :: rest)).dropWhile inKey = before ++ '=' :: rest := by
  cases before with
  | nil => exact ⟨takeWhile_append_cons hmore rfl, dropWhile_append_cons hmore rfl⟩
  | cons c before =>
    have hc : inKey c = false := by simp [inKey, hbefore c List.mem_cons_self]
    exact ⟨takeWhile_append_cons hmore hc, dropWhile_append_cons hmore hc⟩

/-- Attributes that are written one after the other are found, all of them, if their keys are new
and distinct. -/
theorem PairsAmong.rawAttributes_eq {known : List (List Char)} {s : List Char}
    {pairs : List RawAttribute} (h : PairsAmong Spaces s pairs)
    (hdistinct : (pairs.map (·.key)).Nodup) (hnew : ∀ a ∈ pairs, a.key.toList ∉ known) :
    rawAttributes known s = pairs := by
  induction h generalizing known with
  | nil hgap => exact rawAttributes_blank hgap
  | @cons gap before after value s first q more pairs hgap hfirst hmore hbefore hafter hq hvalue _
      ih =>
    rw [List.map_cons, List.nodup_cons] at hdistinct
    rw [List.forall_mem_cons, String.toList_ofList] at hnew
    obtain ⟨hword, hbehind⟩ := span_key hmore hbefore (after ++ q :: (value ++ q :: s))
    have hspace : isSpace q = false := by
      simp only [isQuote, Bool.or_eq_true, beq_iff_eq] at hq
      rcases hq with rfl | rfl <;> decide
    have hinside : ∀ c ∈ value, (c != q) = true := fun c hc =>
      bne_iff_ne.2 fun h => hvalue (h ▸ hc)
    have hfresh : ∀ a ∈ pairs, a.key.toList ∉ (first :: more) :: known := by
      intro a ha hmem
      rcases List.mem_cons.1 hmem with heq | hknown
      · exact hdistinct.1 (List.mem_map.2 ⟨a, ha, String.toList_injective (by simp [heq])⟩)
      · exact hnew.2 a ha hknown
    have hsign : ((more ++ (before ++ '=' :: (after ++ q :: (value ++ q :: s)))).dropWhile
        inKey).dropWhile isSpace = '=' :: (after ++ q :: (value ++ q :: s)) := by
      rw [hbehind, dropWhile_append_cons hbefore rfl]
    rw [rawAttributes_eq_cons (dropWhile_append_cons hgap hfirst) hsign (hword.symm ▸ hnew.1)
      (dropWhile_append_cons hafter hspace) hq (dropWhile_append_cons hinside (by simp)), hword,
      takeWhile_append_cons hinside (by simp), ih hdistinct.2 hfresh]

/-! ## Attributes of the elements of a document -/

/-- Attributes that are written one after the other, with nothing but white space around them, each
under a key of its own. -/
structure WellWritten (s : List Char) (pairs : List RawAttribute) : Prop where
  among : PairsAmong Spaces s pairs
  distinct : (pairs.map (·.key)).Nodup

/-- If attributes are well written in a text, they are those that are found in it. -/
theorem wellWritten_iff {s : List Char} {pairs : List RawAttribute} :
    WellWritten s pairs ↔
      PairsAmong Spaces s (rawAttributes [] s) ∧ pairs = rawAttributes [] s := by
  constructor
  · intro h
    have hfound := @PairsAmong.rawAttributes_eq [] s pairs h.among h.distinct
      fun _ _ => List.not_mem_nil
    exact ⟨hfound.symm ▸ h.among, hfound.symm⟩
  · rintro ⟨hamong, rfl⟩
    exact ⟨hamong, (found_rawAttributes [] s).distinct⟩

/-- What stands in a start tag behind its name. -/
def attributePart (content : List Char) : List Char := skipWord (tagBody content)

/-- What the entry of an element has from its start tag: the name, and the attributes that are found
behind it. They are all attributes of the tag if these are well written, and only then. -/
structure OutlineEntry.TakenFrom (content : List Char) (entry : OutlineEntry) : Prop where
  name : entry.name = tagName (tagBody content)
  attributes : ∃ found, Found [] (attributePart content) found ∧
    found.mapM RawAttribute.resolve = .ok entry.attributes ∧
    ∀ pairs, WellWritten (attributePart content) pairs ↔
      PairsAmong Spaces (attributePart content) found ∧ pairs = found

/-- An entry that shows what a tag tells is taken from it. -/
theorem OutlineEntry.Shows.takenFrom {content : List Char} {entry : OutlineEntry}
    (h : entry.Shows (.ofContent content)) : entry.TakenFrom content :=
  ⟨h.name, _, found_rawAttributes [] _, h.attributes, fun _ => wellWritten_iff⟩

/-- **Attributes of a document.** A text that is accepted has one element for each start tag, in
order. An element has the name of its tag and attributes that stand in the tag in order, no two
under one key. If the attributes of the tag are well written, the element has all of them; anything
else behind the name is passed over without an error. -/
theorem takenFrom_of_parse {text : String} {root : Element} (h : parse text = .ok root) :
    (∃ tags, TagsIn text.toList tags) ∧ ∀ tags, TagsIn text.toList tags →
      List.Forall₂ (fun content entry => entry.TakenFrom content) tags (root.outline 0) := by
  obtain ⟨hfault, hshows⟩ := Reading.forall₂_outline h
  rw [Reading.ofText_eq] at hfault hshows
  refine ⟨exists_tagsIn hfault, fun tags htags => ?_⟩
  have hentries : List.Forall₂ (fun tag entry => entry.Shows tag)
      ((startTags 0 (readText [] text.toList).events).map (·.2)) (root.outline 0) :=
    List.forall₂_map_left_iff.2 (hshows.imp fun _ _ hshow => hshow.2)
  rw [htags.map_startTags hfault, List.forall₂_map_left_iff] at hentries
  exact hentries.imp fun _ _ hshow => hshow.takenFrom

/-- A document with an attribute without quotes, one that is repeated, and one without a value. -/
def carelessText : String := "<a b=c d=\"1\" d=\"2\" e/>"

/-- The element has the only attribute that is found, as `takenFrom_of_parse` says. -/
theorem carelessText_takenFrom :
    parse carelessText = .ok ⟨"a", [("d", "1")], []⟩ ∧
      OutlineEntry.TakenFrom "a b=c d=\"1\" d=\"2\" e/".toList ⟨0, "a", [("d", "1")]⟩ := by
  have hparse : parse carelessText = .ok ⟨"a", [("d", "1")], []⟩ := by decide +kernel
  have hsplit : splitTag none "a b=c d=\"1\" d=\"2\" e/>".toList =
      .ok ("a b=c d=\"1\" d=\"2\" e/".toList, []) := by decide +kernel
  have htags : TagsIn carelessText.toList ["a b=c d=\"1\" d=\"2\" e/".toList] :=
    .start (balancedFrom_of_splitTag hsplit).2 (by decide) (by decide) (by decide) .nil
  have htaken := (takenFrom_of_parse hparse).2 _ htags
  exact ⟨hparse, (List.forall₂_cons.1 htaken).1⟩

/-- A document is accepted although the attributes of a tag are not well written. -/
theorem not_forall_wellWritten :
    ¬ ∀ text root, parse text = .ok root → ∀ tags, TagsIn text.toList tags →
      List.Forall₂ (fun content entry => ∃ pairs, WellWritten (attributePart content) pairs ∧
        pairs.mapM RawAttribute.resolve = .ok entry.attributes) tags (root.outline 0) := by
  intro h
  have hparse : parse "<a b=c/>" = .ok ⟨"a", [], []⟩ := by decide +kernel
  have hsplit : splitTag none "a b=c/>".toList = .ok ("a b=c/".toList, []) := by decide +kernel
  have htags : TagsIn "<a b=c/>".toList ["a b=c/".toList] :=
    .start (balancedFrom_of_splitTag hsplit).2 (by decide) (by decide) (by decide) .nil
  obtain ⟨pairs, hpairs, -⟩ := (List.forall₂_cons.1 (h _ _ hparse _ htags)).1
  obtain ⟨hamong, -⟩ := wellWritten_iff.1 hpairs
  have hfound : rawAttributes [] (attributePart "a b=c/".toList) = [] := by decide +kernel
  rw [hfound, pairsAmong_nil_iff] at hamong
  exact absurd hamong (by decide +kernel)

end SoapTypes.Xml
