import SoapTypes.Xml.Scan

/-!
# Attributes of a tag

The attributes that stand behind the name of a tag, with their values as they are written. What
is no attribute is passed over: a key without a value, a value without quotes, and a key for the
second time.
-/

namespace SoapTypes.Xml

/-- An attribute as it is written, its references not resolved. -/
structure RawAttribute where
  key : String
  value : String
  deriving DecidableEq, Repr

/-- Whether the character goes on with a key. -/
def inKey (c : Char) : Bool :=
  c != '=' && !isSpace c

/-- The text from the next white space on. -/
def skipWord (s : List Char) : List Char :=
  s.dropWhile (!isSpace ·)

/-- The attributes in the text of a tag, where `known` holds the keys that have been given a
value before, good or bad. A key is never empty: whatever stands first belongs to it. Reading
goes on behind the quote that ends a value; behind a bad value or a known key it goes on at the
next white space, which may lie inside of quotes. -/
def rawAttributes (known : List (List Char)) (s : List Char) : List RawAttribute :=
  match _hs : s.dropWhile isSpace with
  | [] => []
  | first :: afterFirst =>
    let key := first :: afterFirst.takeWhile inKey
    match _hk : (afterFirst.dropWhile inKey).dropWhile isSpace with
    | [] => []
    | '=' :: afterSign =>
      if key ∈ known then rawAttributes known (skipWord afterSign)
      else
        match _hv : afterSign.dropWhile isSpace with
        | [] => []
        | q :: written =>
          if isQuote q then
            match _hw : written.dropWhile (· != q) with
            | [] => []
            | _ :: rest =>
              ⟨String.ofList key, String.ofList (written.takeWhile (· != q))⟩ ::
                rawAttributes (key :: known) rest
          else rawAttributes (key :: known) (skipWord written)
    | c :: rest => rawAttributes known (c :: rest)
termination_by s.length
decreasing_by
  all_goals
    have hs := (_hs ▸ List.dropWhile_suffix isSpace : first :: afterFirst <:+ s).length_le
    have hf := (List.dropWhile_suffix (l := afterFirst) inKey).length_le
    have hk := (List.dropWhile_suffix (l := afterFirst.dropWhile inKey) isSpace).length_le
    rw [_hk] at hk
    simp only [List.length_cons] at hs hk ⊢
  · have := (List.dropWhile_suffix (l := afterSign) (!isSpace ·)).length_le
    simp only [skipWord]
    omega
  · have hv := (_hv ▸ List.dropWhile_suffix isSpace : q :: written <:+ afterSign).length_le
    have hw := (List.dropWhile_suffix (l := written) (· != q)).length_le
    rw [_hw] at hw
    simp only [List.length_cons] at hv hw
    omega
  · have hv := (_hv ▸ List.dropWhile_suffix isSpace : q :: written <:+ afterSign).length_le
    have := (List.dropWhile_suffix (l := written) (!isSpace ·)).length_le
    simp only [List.length_cons] at hv
    simp only [skipWord]
    omega
  · omega

end SoapTypes.Xml
