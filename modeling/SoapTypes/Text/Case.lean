import SoapTypes.Text.CaseTable

/-!
# Upper and lower case

Case mapping of single characters, and the change of the first letter that turns a schema
name into the name of a type or of a constant. One character may become several.
-/

namespace SoapTypes.Text

/-- A code point mapped by a table of runs and a table of expansions; `n` itself if neither
holds it. -/
def mapCase (runs : List CaseRun) (expansions : List (Nat × List Nat)) (n : Nat) : List Nat :=
  match expansions.lookup n with
  | some ns => ns
  | none => [(runs.findSome? (·.map? n)).getD n]

/-- The upper case of a character. -/
def upper (c : Char) : List Char :=
  if c.toNat < 128 then [c.toUpper]
  else (mapCase upperRuns upperExpansions c.toNat).map Char.ofNat

/-- The lower case of a character. -/
def lower (c : Char) : List Char :=
  if c.toNat < 128 then [c.toLower]
  else (mapCase lowerRuns lowerExpansions c.toNat).map Char.ofNat

/-- Maps the first character by `f` and keeps the rest. -/
def mapFirst (f : Char → List Char) : List Char → List Char
  | [] => []
  | c :: cs => f c ++ cs

/-- The name with its first letter in upper case. -/
def capitalize (s : String) : String :=
  String.ofList (mapFirst upper s.toList)

/-- The name with its first letter in lower case. -/
def decapitalize (s : String) : String :=
  String.ofList (mapFirst lower s.toList)

theorem toList_capitalize (s : String) : (capitalize s).toList = mapFirst upper s.toList := by
  simp [capitalize]

end SoapTypes.Text
