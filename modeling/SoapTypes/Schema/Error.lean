import SoapTypes.Xml.Error

/-!
# Errors of extracting a schema

Each error names its cause; `message` gives its wording and `chain` the wordings from the
outermost account to the innermost.
-/

namespace SoapTypes.Schema

/-- Why a description gives no schema. -/
inductive Error
  | document (error : Xml.Error)
  /-- The description has no node at the given path. -/
  | missingNode (path : String)
  /-- A type reference has no known prefix, or nothing behind it. -/
  | unknownReference (reference : String)
  /-- A simple type has neither an enumeration nor a base. -/
  | emptySimpleType (name : String)
  | undeclaredBase (name base : String)
  /-- Each name on the path extends the next, and the last one occurs before. -/
  | circularBase (path : List String)
  deriving DecidableEq, Repr

namespace Error

def message : Error → String
  | document e => s!"parse error: {e.message}"
  | missingNode path => s!"missing schema node '{path}'"
  | unknownReference reference => s!"unknown type reference '{reference}'"
  | emptySimpleType name => s!"simple type '{name}' has neither enumerations nor a base"
  | undeclaredBase name base => s!"complex type '{name}' extends unknown base '{base}'"
  | circularBase path => "circular type reference detected: " ++ " -> ".intercalate path

def chain : Error → List String
  | document e => (document e).message :: e.chain
  | e => [e.message]

end Error

end SoapTypes.Schema
