import SoapTypes.Xml.Attribute
import SoapTypes.Xml.Error

/-!
# Markup

What stands between a `<` and the end of the construct that it opens. Tags are events for the
tree; comments, character data, instructions and the document type are taken apart only to find
where they end.
-/

namespace SoapTypes.Xml

/-- What a construct of a document means to its tree. -/
inductive Event
  | opening (name : String) (attributes : List RawAttribute)
  | empty (name : String) (attributes : List RawAttribute)
  | closing (name : String)
  /-- A construct without effect on the tree. -/
  | other
  deriving DecidableEq, Repr

/-- What stands behind a construct that has no effect on the tree, or the error that it is not
closed. -/
def passed (construct : Construct) (rest : Option (List Char)) : Except Error (Event × List Char) :=
  match rest with
  | some rest => .ok (.other, rest)
  | none => .error (.markup (.unclosed construct))

/-- Reads a comment from its exclamation mark on. -/
def comment (s : List Char) : Except Error (Event × List Char) :=
  passed .comment <|
    if "!--".toList.isPrefixOf s then behind? "-->".toList (s.drop 3) else none

/-- Reads character data from its exclamation mark on. -/
def characterData (s : List Char) : Except Error (Event × List Char) :=
  passed .characterData <|
    if "![CDATA[".toList.isPrefixOf s then behind? "]]>".toList (s.drop 8) else none

/-- What stands behind a construct in a document type, given from behind its `<` on. Quotes
matter only in the declarations that may hold values. -/
def behindDeclaration? (s : List Char) : Option (List Char) :=
  if "?".toList.isPrefixOf s then behind? "?>".toList (s.drop 1)
  else if "!--".toList.isPrefixOf s then behind? "-->".toList (s.drop 3)
  else if ["!ENTITY", "!ATTLIST", "!NOTATION"].any (·.toList.isPrefixOf s) then
    match splitTag none s with
    | .ok (_, rest) => some rest
    | .error _ => none
  else behind? ">".toList s

theorem length_le_of_behindDeclaration? {s rest : List Char}
    (h : behindDeclaration? s = some rest) : rest.length ≤ s.length := by
  unfold behindDeclaration? at h
  split at h
  · exact Nat.le_trans (length_le_of_behind? h) (by simp)
  · split at h
    · exact Nat.le_trans (length_le_of_behind? h) (by simp)
    · split at h
      · split at h
        · rename_i hsplit
          cases h
          exact Nat.le_of_lt (length_lt_of_splitTag hsplit)
        · cases h
      · exact length_le_of_behind? h

/-- What stands behind the `]` that ends the declarations of a document type. -/
def behindDeclarations? (s : List Char) : Option (List Char) :=
  match s with
  | [] => none
  | ']' :: rest => some rest
  | '<' :: s =>
    match _h : behindDeclaration? s with
    | some rest => behindDeclarations? rest
    | none => none
  | _ :: s => behindDeclarations? s
termination_by s.length
decreasing_by
  · have := length_le_of_behindDeclaration? _h
    simp only [List.length_cons]
    omega
  · simp

theorem length_le_of_behindDeclarations? {s rest : List Char}
    (h : behindDeclarations? s = some rest) : rest.length ≤ s.length := by
  fun_induction behindDeclarations? s with
  | case1 => cases h
  | case2 s => cases h; simp
  | case3 s t ht ih =>
    have := ih h
    have := length_le_of_behindDeclaration? ht
    simp only [List.length_cons]
    omega
  | case4 => cases h
  | case5 c s _ _ ih => exact Nat.le_succ_of_le (ih h)

/-- What stands behind a document type, given from behind its keyword on or from inside of the
given quotes. A bracket opens the declarations, and after them quotes matter no more. -/
def behindDocumentType? (quote : Option Char) : List Char → Option (List Char)
  | [] => none
  | c :: s =>
    match quote with
    | some q => behindDocumentType? (if c = q then none else some q) s
    | none =>
      if c = '>' then some s
      else if c = '[' then (behindDeclarations? s).bind (behind? ">".toList)
      else behindDocumentType? (if isQuote c then some c else none) s

theorem length_le_of_behindDocumentType? {quote : Option Char} {s rest : List Char}
    (h : behindDocumentType? quote s = some rest) : rest.length ≤ s.length := by
  induction s generalizing quote with
  | nil => simp [behindDocumentType?] at h
  | cons c s ih =>
    cases quote with
    | some q => exact Nat.le_succ_of_le (ih h)
    | none =>
      rw [behindDocumentType?] at h
      split at h
      · cases h
        simp
      · split at h
        · obtain ⟨t, ht, h⟩ := Option.bind_eq_some_iff.1 h
          have := length_le_of_behindDeclarations? ht
          have := length_le_of_behind? h
          simp only [List.length_cons]
          omega
        · exact Nat.le_succ_of_le (ih h)

/-- Reads a document type from its exclamation mark on. The keyword may be in any case, and a
name must follow. -/
def documentType (s : List Char) : Except Error (Event × List Char) :=
  let body := s.drop 8
  if (s.take 8).map Char.toUpper = "!DOCTYPE".toList then
    match body.dropWhile isSpace with
    | '>' :: _ => .error (.form .namelessDocumentType)
    | _ => passed .documentType (behindDocumentType? none body)
  else passed .documentType none

/-- Whether a text from its question mark on begins like an XML declaration. -/
def isDeclaration (s : List Char) : Bool :=
  "?xml".toList.isPrefixOf s && (s.drop 4).head?.all fun c => isSpace c || c == '?'

/-- Reads a processing instruction or an XML declaration from its question mark on. -/
def instruction (s : List Char) : Except Error (Event × List Char) :=
  passed (if isDeclaration s then .declaration else .instruction) <|
    if "?>".toList.isPrefixOf s then none else behind? "?>".toList (s.drop 1)

/-- The name in an end tag. White space at its end does not count, unless there is nothing
else. -/
def closingName (s : List Char) : List Char :=
  let trimmed := (s.reverse.dropWhile isSpace).reverse
  if trimmed.isEmpty then s else trimmed

/-- The name at the start of a tag, up to the first white space. -/
def tagName (s : List Char) : String :=
  String.ofList (s.takeWhile (!isSpace ·))

/-- The attributes behind the name of a tag. -/
def tagAttributes (s : List Char) : List RawAttribute :=
  rawAttributes [] (skipWord s)

/-- The event of a tag, given what stands between `<` and `>`. -/
def tagEvent (s : List Char) : Event :=
  match s with
  | '/' :: name => .closing (String.ofList (closingName name))
  | _ =>
    if s.getLast? = some '/' then .empty (tagName s.dropLast) (tagAttributes s.dropLast)
    else .opening (tagName s) (tagAttributes s)

/-- Reads a tag. -/
def tag (s : List Char) : Except Error (Event × List Char) :=
  match splitTag none s with
  | .ok (content, rest) => .ok (tagEvent content, rest)
  | .error none => .error (.markup (.unclosed .tag))
  | .error (some q) => .error (.markup (.unclosed (.value q)))

/-- Reads the construct that a `<` opens, given from behind the `<` on: its event and what
stands behind it. -/
def markup (s : List Char) : Except Error (Event × List Char) :=
  match s with
  | '!' :: '-' :: _ => comment s
  | '!' :: '[' :: _ => characterData s
  | '!' :: 'D' :: _ | '!' :: 'd' :: _ => documentType s
  | '!' :: _ => .error (.markup .unknown)
  | '?' :: _ => instruction s
  | _ => tag s

theorem length_le_of_passed {construct : Construct} {rest : Option (List Char)} {s t : List Char}
    {event : Event} (h : passed construct rest = .ok (event, t))
    (hrest : rest = some t → t.length ≤ s.length) : t.length ≤ s.length := by
  cases rest with
  | none => simp [passed] at h
  | some r =>
    cases h
    exact hrest rfl

theorem length_le_of_behind?_drop {mark s rest : List Char} {n : Nat} {p : Prop} [Decidable p]
    (h : (if p then behind? mark (s.drop n) else none) = some rest) : rest.length ≤ s.length := by
  split at h
  · exact Nat.le_trans (length_le_of_behind? h) (by simp)
  · cases h

theorem length_le_of_documentType {s rest : List Char} {event : Event}
    (h : documentType s = .ok (event, rest)) : rest.length ≤ s.length := by
  simp only [documentType] at h
  split at h
  · split at h
    · cases h
    · exact length_le_of_passed h fun h =>
        Nat.le_trans (length_le_of_behindDocumentType? h) (by simp)
  · exact length_le_of_passed h nofun

theorem length_le_of_instruction {s rest : List Char} {event : Event}
    (h : instruction s = .ok (event, rest)) : rest.length ≤ s.length := by
  refine length_le_of_passed h fun h => ?_
  split at h
  · cases h
  · exact Nat.le_trans (length_le_of_behind? h) (by simp)

theorem length_le_of_tag {s rest : List Char} {event : Event}
    (h : tag s = .ok (event, rest)) : rest.length ≤ s.length := by
  unfold tag at h
  split at h
  · rename_i hsplit
    cases h
    exact Nat.le_of_lt (length_lt_of_splitTag hsplit)
  · cases h
  · cases h

/-- What stands behind a construct is no longer than what begins with it. -/
theorem length_le_of_markup {s rest : List Char} {event : Event}
    (h : markup s = .ok (event, rest)) : rest.length ≤ s.length := by
  unfold markup at h
  split at h
  · exact length_le_of_passed h length_le_of_behind?_drop
  · exact length_le_of_passed h length_le_of_behind?_drop
  · exact length_le_of_documentType h
  · exact length_le_of_documentType h
  · cases h
  · exact length_le_of_instruction h
  · exact length_le_of_tag h

end SoapTypes.Xml
