import SoapTypes.Generation.Version
import SoapTypes.TypeScript.Error

/-!
# Errors of a run

Each error names its cause; `message` gives its wording and `chain` the wordings from the
outermost account to the innermost.
-/

namespace SoapTypes.Generation

/-- Why a run writes no document. -/
inductive Error
  | document (error : Xml.Error)
  | schema (error : Schema.Error)
  | typeScript (error : TypeScript.Error)
  | file (path : String) (fault : Files.Fault)
  /-- No version is known by the given text. -/
  | unknownVersion (text : String)
  deriving DecidableEq, Repr

namespace Error

def message : Error → String
  | document e => s!"parse error: {e.message}"
  | schema e => s!"schema error: {e.message}"
  | typeScript e => s!"codegen error: {e.message}"
  | file path f => s!"IO error on '{path}': {f.message}"
  | unknownVersion text =>
    s!"unknown metadata version '{text}', supported: " ++
      ", ".intercalate (Version.all.map (·.number))

def chain : Error → List String
  | document e => (document e).message :: e.chain
  | schema e => (schema e).message :: e.chain
  | typeScript e => (typeScript e).message :: e.chain
  | file path f => [(file path f).message, f.message]
  | unknownVersion text => [(unknownVersion text).message]

end Error

/-- The version that a text asks for, or the error that there is none. -/
def Version.ofText (text : String) : Except Error Version :=
  match ofText? text with
  | some v => .ok v
  | none => .error (.unknownVersion text)

end SoapTypes.Generation
