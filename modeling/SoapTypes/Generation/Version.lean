import SoapTypes.Files.Path
import SoapTypes.Text.Blank

/-!
# Built-in versions

The versions of the service description that can be asked for by number. Their files stand in a
directory of resources. A number may be written with blanks around it and with any number of
zeros behind points at its end.
-/

namespace SoapTypes.Generation

/-- A built-in version. -/
inductive Version
  | v47
  deriving DecidableEq, Repr

namespace Version

/-- All versions, the oldest first. -/
def all : List Version := [v47]

/-- The newest version. -/
def latest : Version := v47

/-- The number of a version. -/
def number : Version → String
  | v47 => "47"

/-- Takes off zeros behind points at the start of a reversed number. -/
def dropZeros : List Char → List Char
  | '0' :: '.' :: s => dropZeros s
  | s => s

/-- The number in the text of a version. -/
def written (text : String) : String :=
  String.ofList (dropZeros (Text.trim text.toList).reverse).reverse

/-- The version that a text asks for. -/
def ofText? (text : String) : Option Version :=
  all.find? (·.number == written text)

/-- The path of a version's description in a directory of resources. -/
def path (v : Version) (resourceDir : String) : String :=
  Files.join (Files.join (Files.join resourceDir "wsdl") "metadata") (v.number ++ ".xml")

end Version

end SoapTypes.Generation
