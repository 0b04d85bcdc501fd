import SoapTypes.Proofs.PlainName
import SoapTypes.Proofs.Reading.Value

/-!
# Written tags

How a tag is written, and that it is read as it has been written. A start tag holds a name and
attributes with distinct keys, each behind white space; an end tag holds the name only. Names have
none of the characters by which tags, keys and values are recognized, so what the attributes are
written around shows through only inside of their quotes.
-/

namespace SoapTypes.Xml

/-- The characters of qualified names. -/
def inQualifiedName (c : Char) : Bool :=
  Text.inName c || c == ':'

/-- A name that begins with a letter or an underscore and has the characters of qualified names
only. -/
structure QualifiedName (name : String) : Prop where
  begins : name.toList.head?.any (fun c => Text.isLetter c || c == '_') = true
  characters : ∀ c ∈ name.toList, inQualifiedName c = true

instance (name : String) : Decidable (QualifiedName name) :=
  decidable_of_iff (name.toList.head?.any (fun c => Text.isLetter c || c == '_') = true ∧
    name.toList.all inQualifiedName = true)
    ⟨fun h => ⟨h.1, List.all_eq_true.1 h.2⟩, fun h => ⟨h.begins, List.all_eq_true.2 h.characters⟩⟩

namespace QualifiedName

variable {name : String} (h : QualifiedName name)

include h

theorem ne_of_mem {c d : Char} (hc : c ∈ name.toList) (hd : inQualifiedName d = false) : c ≠ d := by
  rintro rfl
  rw [h.characters c hc] at hd
  cases hd

theorem isSpace_eq_false {c : Char} (hc : c ∈ name.toList) : isSpace c = false := by
  simp only [isSpace, Bool.or_eq_false_iff, beq_eq_false_iff_ne]
  exact ⟨⟨⟨h.ne_of_mem hc (by decide), h.ne_of_mem hc (by decide)⟩,
    h.ne_of_mem hc (by decide)⟩, h.ne_of_mem hc (by decide)⟩

theorem isQuote_eq_false {c : Char} (hc : c ∈ name.toList) : isQuote c = false := by
  simp only [isQuote, Bool.or_eq_false_iff, beq_eq_false_iff_ne]
  exact ⟨h.ne_of_mem hc (by decide), h.ne_of_mem hc (by decide)⟩

theorem inKey_eq_true {c : Char} (hc : c ∈ name.toList) : inKey c = true := by
  have hsign : c ≠ '=' := h.ne_of_mem hc (by decide)
  simp [inKey, hsign, h.isSpace_eq_false hc]

theorem toList_eq_cons : ∃ first more, name.toList = first :: more := by
  have hbegins := h.begins
  cases hname : name.toList with
  | nil => simp [hname] at hbegins
  | cons first more => exact ⟨first, more, rfl⟩

/-- A text that begins with the name does not begin with any other character. -/
theorem head?_append_ne {c : Char} (hc : inQualifiedName c = false) {s : List Char} :
    (name.toList ++ s).head? ≠ some c := by
  obtain ⟨first, more, hlist⟩ := h.toList_eq_cons
  rw [hlist, List.cons_append, List.head?_cons, Ne, Option.some.injEq]
  exact h.ne_of_mem (hlist ▸ List.mem_cons_self) hc

/-- A text that begins with the name ends with another character only if the rest does. -/
theorem getLast?_append_ne {c : Char} (hc : inQualifiedName c = false) {s : List Char}
    (hs : s.getLast? ≠ some c) : (name.toList ++ s).getLast? ≠ some c := by
  intro hlast
  rw [List.getLast?_append] at hlast
  cases hrest : s.getLast? with
  | none =>
    rw [hrest, Option.none_or] at hlast
    exact h.ne_of_mem (List.mem_of_mem_getLast? hlast) hc rfl
  | some d =>
    rw [hrest, Option.some_or] at hlast
    exact hs (hrest.trans hlast)

theorem balanced : Balanced name.toList :=
  balanced_of_forall fun _ hc => ⟨h.ne_of_mem hc (by decide), h.isQuote_eq_false hc⟩

end QualifiedName

/-- The attributes of a tag as they are written behind its name, each behind white space, with
white space at the end if any. -/
inductive AttributesText : List Attribute → List Char → Prop
  | nil {blank : List Char} (hblank : Spaces blank) : AttributesText [] blank
  | cons {blank s : List Char} {key value : String} {attributes : List Attribute}
      (hblank : Spaces blank) (hne : blank ≠ [])
      (h : AttributesText attributes s) :
      AttributesText ((key, value) :: attributes)
        (blank ++ (key.toList ++ '=' :: '"' :: (escapeValue value ++ '"' :: s)))

/-- Attributes can be written whatever they hold. -/
theorem exists_attributesText (attributes : List Attribute) :
    ∃ s, AttributesText attributes s := by
  induction attributes with
  | nil => exact ⟨[], .nil fun _ => nofun⟩
  | cons a attributes ih =>
    obtain ⟨s, hs⟩ := ih
    have hblank : Spaces [' '] := by decide
    exact ⟨_, .cons hblank (List.cons_ne_nil _ _) hs⟩

/-- The names of a tag: its own and the distinct keys of its attributes. -/
structure TagNames (name : String) (attributes : List Attribute) : Prop where
  name : QualifiedName name
  keys : ∀ a ∈ attributes, QualifiedName a.1
  distinct : (attributes.map (·.1)).Nodup

/-- An attribute is taken if each search finds what it looks for: a key, a new one, the sign behind
it, and a value in quotes. -/
theorem rawAttributes_eq_cons {known : List (List Char)} {first q close : Char}
    {s afterFirst afterSign written rest : List Char}
    (hkey : s.dropWhile isSpace = first :: afterFirst)
    (hsign : (afterFirst.dropWhile inKey).dropWhile isSpace = '=' :: afterSign)
    (hnew : first :: afterFirst.takeWhile inKey ∉ known)
    (hvalue : afterSign.dropWhile isSpace = q :: written) (hq : isQuote q = true)
    (hclose : written.dropWhile (· != q) = close :: rest) :
    rawAttributes known s =
      ⟨String.ofList (first :: afterFirst.takeWhile inKey),
        String.ofList (written.takeWhile (· != q))⟩ ::
        rawAttributes ((first :: afterFirst.takeWhile inKey) :: known) rest := by
  -- Each search is matched on together with its equation, so no rewriting goes below the match:
  -- it is split, and all cases but one contradict the hypothesis on that search.
  rw [rawAttributes]
  split
  · rename_i h
    cases hkey.symm.trans h
  · rename_i h
    obtain ⟨rfl, rfl⟩ := List.cons.inj (hkey.symm.trans h)
    split
    · rename_i h
      cases hsign.symm.trans h
    · rename_i h
      obtain rfl := (List.cons.inj (hsign.symm.trans h)).2
      rw [if_neg hnew]
      split
      · rename_i h
        cases hvalue.symm.trans h
      · rename_i h
        obtain ⟨rfl, rfl⟩ := List.cons.inj (hvalue.symm.trans h)
        rw [if_pos hq]
        split
        · rename_i h
          cases hclose.symm.trans h
        · rename_i h
          obtain rfl := (List.cons.inj (hclose.symm.trans h)).2
          rfl
    · rename_i hne h
      exact absurd (List.cons.inj (hsign.symm.trans h)).1.symm hne

/-- Reading attributes takes a written one if its key is new, and goes on behind it. -/
theorem rawAttributes_written {known : List (List Char)} {blank value rest : List Char}
    {key : String} (hblank : Spaces blank) (hkey : QualifiedName key)
    (hnew : key.toList ∉ known) (hvalue : '"' ∉ value) :
    rawAttributes known (blank ++ (key.toList ++ '=' :: '"' :: (value ++ '"' :: rest))) =
      ⟨key, String.ofList value⟩ :: rawAttributes (key.toList :: known) rest := by
  obtain ⟨first, more, hlist⟩ := hkey.toList_eq_cons
  have hname : String.ofList (first :: more) = key := by
    rw [← hlist, String.ofList_toList]
  have hfirst : isSpace first = false := hkey.isSpace_eq_false (hlist ▸ List.mem_cons_self)
  have hmore : ∀ c ∈ more, inKey c = true := fun c hc =>
    hkey.inKey_eq_true (hlist ▸ List.mem_cons_of_mem first hc)
  have hinside : ∀ c ∈ value, (c != '"') = true := fun c hc =>
    bne_iff_ne.2 fun h => hvalue (h ▸ hc)
  have hword : (more ++ '=' :: '"' :: (value ++ '"' :: rest)).takeWhile inKey = more :=
    takeWhile_append_cons hmore rfl
  have hsign : ((more ++ '=' :: '"' :: (value ++ '"' :: rest)).dropWhile inKey).dropWhile isSpace =
      '=' :: '"' :: (value ++ '"' :: rest) := by
    rw [dropWhile_append_cons hmore rfl]
    rfl
  rw [hlist] at hnew ⊢
  rw [List.cons_append, rawAttributes_eq_cons (dropWhile_append_cons hblank hfirst) hsign
    (hword.symm ▸ hnew) rfl rfl (dropWhile_append_cons hinside (by decide)), hword,
    takeWhile_append_cons hinside (by decide), hname]

/-- White space holds no attributes. -/
theorem rawAttributes_blank {known : List (List Char)} {blank : List Char}
    (hblank : Spaces blank) : rawAttributes known blank = [] := by
  have hdrop : blank.dropWhile isSpace = [] := List.dropWhile_eq_nil_iff.2 hblank
  rw [rawAttributes]
  split
  · rfl
  · rename_i h
    cases hdrop.symm.trans h

namespace AttributesText

variable {attributes : List Attribute} {s : List Char} (h : AttributesText attributes s)

include h

/-- The attributes of a tag are read as they have been written. -/
theorem rawAttributes_eq {known : List (List Char)} (hkeys : ∀ a ∈ attributes, QualifiedName a.1)
    (hdistinct : (attributes.map (·.1)).Nodup) (hnew : ∀ a ∈ attributes, a.1.toList ∉ known) :
    rawAttributes known s = attributes.map writtenAttribute := by
  induction h generalizing known with
  | nil hblank => exact rawAttributes_blank hblank
  | @cons blank s key value attributes hblank _ _ ih =>
    rw [List.map_cons, List.nodup_cons] at hdistinct
    rw [List.forall_mem_cons] at hkeys hnew
    have hfresh : ∀ a ∈ attributes, a.1.toList ∉ key.toList :: known := by
      intro a ha hmem
      rcases List.mem_cons.1 hmem with heq | hknown
      · exact hdistinct.1 (List.mem_map.2 ⟨a, ha, String.toList_injective heq⟩)
      · exact hnew.2 a ha hknown
    rw [rawAttributes_written hblank hkeys.1 hnew.1 (quote_notMem_escapeValue value),
      ih hkeys.2 hdistinct.2 hfresh]
    rfl

/-- Quotes stand around values only. -/
theorem balanced (hkeys : ∀ a ∈ attributes, QualifiedName a.1) : Balanced s := by
  induction h with
  | nil hblank => exact hblank.balanced
  | @cons blank s key value attributes hblank _ _ ih =>
    rw [List.forall_mem_cons] at hkeys
    have hvalue : Balanced ('"' :: (escapeValue value ++ '"' :: s)) :=
      .quoted rfl (quote_notMem_escapeValue value) (ih hkeys.2)
    exact hblank.balanced.append
      (hkeys.1.balanced.append (.plain (by decide) rfl hvalue))

/-- Behind the name of the tag comes white space, if anything. -/
theorem isSpace_of_mem_head? {c : Char} (hc : c ∈ s.head?) : isSpace c = true := by
  cases h with
  | nil hblank => exact hblank c (List.mem_of_mem_head? hc)
  | @cons blank _ _ _ _ hblank hne _ =>
    rw [List.head?_append_of_ne_nil _ hne] at hc
    exact hblank c (List.mem_of_mem_head? hc)

/-- No slash stands at the end, where it would make the element empty. -/
theorem getLast?_ne : s.getLast? ≠ some '/' := by
  induction h with
  | @nil blank hblank =>
    intro hlast
    have hspace := hblank '/' (List.mem_of_mem_getLast? hlast)
    cases hspace
  | @cons blank s key value attributes _ _ _ ih =>
    have hquote : ('"' :: s).getLast? ≠ some '/' := by
      rw [List.getLast?_cons]
      cases hs : s.getLast? with
      | none => decide
      | some c => exact hs ▸ ih
    simpa [List.getLast?_append, List.getLast?_cons] using hquote

end AttributesText

/-- The name of a tag ends where its attributes begin. -/
theorem tagName_append {name : String} {attributes : List Attribute} {s : List Char}
    (hname : QualifiedName name) (h : AttributesText attributes s) :
    tagName (name.toList ++ s) = name ∧ skipWord (name.toList ++ s) = s := by
  have hword : ∀ c ∈ name.toList, (!isSpace c) = true := fun c hc => by
    rw [hname.isSpace_eq_false hc]
    rfl
  cases s with
  | nil =>
    rw [tagName, skipWord, List.append_nil, List.takeWhile_eq_self_iff.2 hword,
      List.dropWhile_eq_nil_iff.2 hword]
    exact ⟨String.ofList_toList, rfl⟩
  | cons c s =>
    have hc : (!isSpace c) = false := by
      rw [h.isSpace_of_mem_head? rfl]
      rfl
    rw [tagName, skipWord, takeWhile_append_cons hword hc, dropWhile_append_cons hword hc]
    exact ⟨String.ofList_toList, rfl⟩

/-- White space behind the name in an end tag does not count. -/
theorem closingName_append {name : String} {blank : List Char} (hname : QualifiedName name)
    (hblank : Spaces blank) : closingName (name.toList ++ blank) = name.toList := by
  have hspaces : Spaces blank.reverse := fun c hc =>
    hblank c (List.mem_reverse.1 hc)
  have hkept : name.toList.reverse.dropWhile isSpace = name.toList.reverse := by
    rw [List.dropWhile_eq_self_iff]
    intro hlength
    rw [hname.isSpace_eq_false (List.mem_reverse.1 (List.getElem_mem hlength))]
    decide
  obtain ⟨first, more, hlist⟩ := hname.toList_eq_cons
  simp only [closingName]
  rw [List.reverse_append, List.dropWhile_append_of_pos hspaces, hkept, List.reverse_reverse, hlist]
  rfl

/-- A tag that does not begin with a slash is a start tag, and its last character decides whether
the element is empty. -/
theorem tagEvent_startTag {s : List Char} (hs : s.head? ≠ some '/') :
    tagEvent s =
      if s.getLast? = some '/' then .empty (tagName s.dropLast) (tagAttributes s.dropLast)
      else .opening (tagName s) (tagAttributes s) := by
  unfold tagEvent
  split
  · exact absurd rfl hs
  · rfl

/-- A construct that begins like a tag is read as a tag, up to the `>` behind its content. -/
theorem markup_of_balanced {s : List Char} (hs : Balanced s) (hbang : s.head? ≠ some '!')
    (hquestion : s.head? ≠ some '?') (rest : List Char) :
    markup (s ++ '>' :: rest) = .ok (tagEvent s, rest) := by
  have htag : markup (s ++ '>' :: rest) = tag (s ++ '>' :: rest) := by
    cases s with
    | nil => rfl
    | cons c s =>
      unfold markup
      split <;> simp_all
  rw [htag, tag, splitTag_of_balanced hs]

/-- A construct that begins with a name is a start tag. -/
theorem markup_startTag {name : String} (hname : QualifiedName name) {s : List Char}
    (hs : Balanced s) (rest : List Char) :
    markup (name.toList ++ s ++ '>' :: rest) = .ok
      (if (name.toList ++ s).getLast? = some '/' then
        .empty (tagName (name.toList ++ s).dropLast) (tagAttributes (name.toList ++ s).dropLast)
      else .opening (tagName (name.toList ++ s)) (tagAttributes (name.toList ++ s)), rest) := by
  have hslash : (name.toList ++ s).head? ≠ some '/' := hname.head?_append_ne (by decide)
  have hbang : (name.toList ++ s).head? ≠ some '!' := hname.head?_append_ne (by decide)
  have hquestion : (name.toList ++ s).head? ≠ some '?' := hname.head?_append_ne (by decide)
  rw [markup_of_balanced (hname.balanced.append hs) hbang hquestion, tagEvent_startTag hslash]

section Tags

variable {name : String} {attributes : List Attribute} {s : List Char}
  (hnames : TagNames name attributes) (h : AttributesText attributes s)

include hnames h

theorem tagAttributes_startTag :
    tagAttributes (name.toList ++ s) = attributes.map writtenAttribute := by
  rw [tagAttributes, (tagName_append hnames.name h).2]
  exact h.rawAttributes_eq hnames.keys hnames.distinct fun _ _ => List.not_mem_nil

/-- A start tag opens its element. -/
theorem markup_opening (rest : List Char) :
    markup (name.toList ++ (s ++ '>' :: rest)) =
      .ok (.opening name (attributes.map writtenAttribute), rest) := by
  have hlast : (name.toList ++ s).getLast? ≠ some '/' :=
    hnames.name.getLast?_append_ne (by decide) h.getLast?_ne
  rw [← List.append_assoc, markup_startTag hnames.name (h.balanced hnames.keys), if_neg hlast,
    (tagName_append hnames.name h).1, tagAttributes_startTag hnames h]

/-- A start tag with a slash at its end gives an element without children. -/
theorem markup_empty (rest : List Char) :
    markup (name.toList ++ (s ++ '/' :: '>' :: rest)) =
      .ok (.empty name (attributes.map writtenAttribute), rest) := by
  have hbalanced : Balanced (s ++ ['/']) :=
    (h.balanced hnames.keys).append (.plain (by decide) rfl .nil)
  have hcontent : name.toList ++ (s ++ '/' :: '>' :: rest) =
      name.toList ++ (s ++ ['/']) ++ '>' :: rest := by
    simp
  have hlast : (name.toList ++ (s ++ ['/'])).getLast? = some '/' := by
    simp [List.getLast?_append]
  have hdrop : (name.toList ++ (s ++ ['/'])).dropLast = name.toList ++ s := by
    rw [← List.append_assoc, List.dropLast_concat]
  rw [hcontent, markup_startTag hnames.name hbalanced, if_pos hlast, hdrop,
    (tagName_append hnames.name h).1, tagAttributes_startTag hnames h]

end Tags

/-- An end tag closes the element of its name. -/
theorem markup_closing {name : String} {blank : List Char} (hname : QualifiedName name)
    (hblank : Spaces blank) (rest : List Char) :
    markup ('/' :: (name.toList ++ (blank ++ '>' :: rest))) = .ok (.closing name, rest) := by
  have hbalanced : Balanced ('/' :: (name.toList ++ blank)) :=
    .plain (by decide) rfl (hname.balanced.append hblank.balanced)
  have hcontent : '/' :: (name.toList ++ (blank ++ '>' :: rest)) =
      '/' :: (name.toList ++ blank) ++ '>' :: rest := by
    simp
  rw [hcontent, markup_of_balanced hbalanced (by simp) (by simp)]
  simp only [tagEvent]
  rw [closingName_append hname hblank, String.ofList_toList]

end SoapTypes.Xml
