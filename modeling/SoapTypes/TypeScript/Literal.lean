/-!
# String literals

A string literal stands between double quotes. Inside it the quote, the backslash and the
three common controls are written as two characters, and everything else as itself.
-/

namespace SoapTypes.TypeScript

/-- How a character stands inside a literal. -/
def escapeChar : Char → List Char
  | '"' => ['\\', '"']
  | '\\' => ['\\', '\\']
  | '\n' => ['\\', 'n']
  | '\r' => ['\\', 'r']
  | '\t' => ['\\', 't']
  | c => [c]

/-- The literal whose value is the given text. -/
def quote (s : String) : String :=
  String.ofList ('"' :: (s.toList.flatMap escapeChar ++ ['"']))

theorem toList_quote (s : String) :
    (quote s).toList = '"' :: (s.toList.flatMap escapeChar ++ ['"']) := by
  simp [quote]

end SoapTypes.TypeScript
