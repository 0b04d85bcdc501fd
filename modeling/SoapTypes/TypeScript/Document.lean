import SoapTypes.Calendar
import SoapTypes.Report
import SoapTypes.Schema.Index
import SoapTypes.Text.Lines
import SoapTypes.TypeScript.OfSchema

/-!
# Documents

A generated document begins with a banner, which may tell the time. The aliases follow, then
after a blank line the interfaces, which blank lines keep apart, and last, if a root is given,
the roster of its family.
-/

namespace SoapTypes

namespace TypeScript

/-- A complete set of generated declarations. -/
structure Document where
  /-- When the document was made, if it is to tell. -/
  generated : Option Timestamp
  aliases : List Alias
  interfaces : List Interface
  roster : Option Roster
  deriving DecidableEq, Repr

/-- The lines of the comment that keeps tools and editors away, and a blank line. -/
def bannerLines (generated : Option Timestamp) : List String :=
  ["/* tslint:disable */", "/* eslint-disable */", "/* This file was generated by wsdl2ts."] ++
    (match generated with
      | none => ["Do not make any changes here as it can be regenerated at any time. */"]
      | some t =>
        ["Do not make any changes here as it can be regenerated at any time.",
          s!"Generated at: {t.text} */"]) ++
    [""]

/-- The lines of the interfaces with a blank line between two of them. -/
def interfaceLines (interfaces : List Interface) : List String :=
  [""].intercalate (interfaces.map (·.lines))

namespace Document

/-- The lines of a document. -/
def lines (d : Document) : List String :=
  bannerLines d.generated ++ d.aliases.map (·.line) ++ "" :: interfaceLines d.interfaces ++
    (match d.roster with
      | none => []
      | some r => "" :: r.lines)

/-- The text of a document. -/
def text (d : Document) : String :=
  Text.unlines d.lines

end Document

end TypeScript

namespace Schema

open TypeScript

/-- The aliases of all simple types. -/
def aliases (s : Schema) : Except TypeScript.Error (List Alias) :=
  s.simpleTypes.mapM (·.alias)

/-- The interfaces of all complex types. -/
def interfaces (s : Schema) : Except TypeScript.Error (List Interface) :=
  s.complexTypes.mapM (·.interface)

/-- What is worth telling when the family of a root is looked up. -/
def familyNotices (s : Schema) (root : String) : List Notice :=
  if s.index.contains root then [] else [.undeclaredRoot root]

/-- The roster of the family of a root. -/
def roster (s : Schema) (root : String) : Report TypeScript.Error Roster :=
  let family := s.family root
  ⟨s.familyNotices root ++ [.familySize root family.length], .ok (.ofFamily root family)⟩

/-- The document of a schema. Nothing is said about the family of the root unless all types can
be written. -/
def document (s : Schema) (generated : Option Timestamp) (root : Option String) :
    Report TypeScript.Error Document := do
  let aliases ← Report.ofExcept s.aliases
  let interfaces ← Report.ofExcept s.interfaces
  match root with
  | none => pure ⟨generated, aliases, interfaces, none⟩
  | some root =>
    let roster ← s.roster root
    pure ⟨generated, aliases, interfaces, some roster⟩

end Schema

end SoapTypes
