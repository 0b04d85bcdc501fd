import SoapTypes.Files.Fault
import SoapTypes.Schema.Error

/-!
# Errors of making a document

Each error names its cause; `message` gives its wording and `chain` the wordings from the
outermost account to the innermost.
-/

namespace SoapTypes.TypeScript

/-- Why a description gives no document. -/
inductive Error
  | schema (error : Schema.Error)
  | file (fault : Files.Fault)
  /-- The type of a field maps to nothing. -/
  | unknownPropertyType (owner field type : String)
  /-- A simple type has neither literals nor a base. -/
  | emptySimpleType (name : String)
  deriving DecidableEq, Repr

namespace Error

def message : Error → String
  | schema e => s!"schema error: {e.message}"
  | file f => s!"IO error: {f.message}"
  | unknownPropertyType owner field type =>
    s!"unknown property type '{type}' for field '{field}' of '{owner}'"
  | emptySimpleType name =>
    s!"cannot render simple type '{name}' without enumerations or base"

def chain : Error → List String
  | schema e => (schema e).message :: e.chain
  | file f => [(file f).message, f.message]
  | e => [e.message]

end Error

end SoapTypes.TypeScript
