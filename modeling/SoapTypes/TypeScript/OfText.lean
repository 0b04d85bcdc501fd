import SoapTypes.Schema.OfText
import SoapTypes.Schema.Validity
import SoapTypes.TypeScript.Document

/-!
# Documents of descriptions

The way from the text of a service description to the text of its TypeScript document: read,
extract, validate, write. The first step that fails ends it.
-/

namespace SoapTypes.TypeScript

/-- The text of the document of a description. -/
def ofText (description : String) (generated : Option Timestamp) (root : Option String) :
    Report Error String := do
  let schema ← (Schema.ofText description).mapError .schema
  schema.validate.mapError .schema
  let document ← schema.document generated root
  pure document.text

end SoapTypes.TypeScript
