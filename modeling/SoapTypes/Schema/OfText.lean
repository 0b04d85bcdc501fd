import SoapTypes.Schema.Extraction
import SoapTypes.Xml.Document

/-!
# Schemas of texts

The schema of a service description that is given as a text.
-/

namespace SoapTypes.Schema

/-- The schema of a description. -/
def ofText (description : String) : Report Error Schema :=
  (Report.ofExcept ((Xml.parse description).mapError .document)).bind ofRoot

end SoapTypes.Schema
