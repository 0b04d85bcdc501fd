/-!
# Blank characters

The Unicode property `White_Space` and trimming by it. A trimmed text neither starts nor
ends with a blank.
-/

namespace SoapTypes.Text

/-- The property `White_Space`: five controls, the space, NEL, and the wider spaces and
separators of later blocks. -/
def isBlank (c : Char) : Bool :=
  ('\t' ≤ c && c ≤ '\r') || c == ' ' || c == '\u0085' || c == '\u00a0' || c == '\u1680' ||
    ('\u2000' ≤ c && c ≤ '\u200a') || c == '\u2028' || c == '\u2029' || c == '\u202f' ||
    c == '\u205f' || c == '\u3000'

/-- The text without the blanks at its end. -/
def trimRight (s : List Char) : List Char :=
  (s.reverse.dropWhile isBlank).reverse

/-- The text without the blanks at its two ends. -/
def trim (s : List Char) : List Char :=
  trimRight (s.dropWhile isBlank)

end SoapTypes.Text
