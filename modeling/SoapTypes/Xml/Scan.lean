/-!
# Searching in markup

The searches that find where a construct of markup ends. What a search leaves is shorter than
what it was given, or at least not longer.
-/

namespace SoapTypes.Xml

/-- White space in markup. -/
def isSpace (c : Char) : Bool :=
  c == ' ' || c == '\t' || c == '\r' || c == '\n'

/-- Whether the character can delimit a value. -/
def isQuote (c : Char) : Bool :=
  c == '"' || c == '\''

/-- What stands behind the first occurrence of a mark. -/
def behind? (mark : List Char) : List Char → Option (List Char)
  | [] => none
  | c :: s => if mark.isPrefixOf (c :: s) then some ((c :: s).drop mark.length) else behind? mark s

theorem length_le_of_behind? {mark s rest : List Char} (h : behind? mark s = some rest) :
    rest.length ≤ s.length := by
  induction s with
  | nil => simp [behind?] at h
  | cons c s ih =>
    rw [behind?] at h
    split at h
    · cases h
      simp
    · exact Nat.le_succ_of_le (ih h)

/-- What stands before the first `>` outside of quotes, and what stands behind it. The text
begins inside of the given quotes, if any. Without such a `>` the quote that is open at the end
is the error, if any. -/
def splitTag (quote : Option Char) : List Char → Except (Option Char) (List Char × List Char)
  | [] => .error quote
  | c :: s =>
    match quote with
    | some q => (splitTag (if c = q then none else some q) s).map fun (t, rest) => (c :: t, rest)
    | none =>
      if c = '>' then .ok ([], s)
      else (splitTag (if isQuote c then some c else none) s).map fun (t, rest) => (c :: t, rest)

theorem length_lt_of_splitTag {quote : Option Char} {s tag rest : List Char}
    (h : splitTag quote s = .ok (tag, rest)) : rest.length < s.length := by
  induction s generalizing quote tag with
  | nil => simp [splitTag] at h
  | cons c s ih =>
    have hmap {q : Option Char}
        (h : (splitTag q s).map (fun p => (c :: p.1, p.2)) = .ok (tag, rest)) :
        rest.length < (c :: s).length := by
      cases hs : splitTag q s with
      | error e => simp [hs, Except.map] at h
      | ok p =>
        simp only [hs, Except.map, Except.ok.injEq, Prod.mk.injEq] at h
        obtain ⟨_, rfl⟩ := h
        exact Nat.lt_succ_of_lt (ih hs)
    cases quote with
    | some q => exact hmap h
    | none =>
      rw [splitTag] at h
      split at h
      · cases h
        simp
      · exact hmap h

end SoapTypes.Xml
