import SoapTypes.Files.Store
import SoapTypes.Generation.Error
import SoapTypes.Generation.Options
import SoapTypes.TypeScript.OfText

/-!
# Runs

A run reads the description that its options ask for, makes the document and writes it. Nothing
is written unless the whole document can be made. Reading is a function from paths to texts, so
that a run can be made on any store of files.
-/

namespace SoapTypes.Generation

/-- How a run reads files. -/
abbrev Reader := String → Except Files.Fault String

/-- The root element of the description that the options ask for. -/
def load (read : Reader) (env : Environment) (o : Options) : Report Error Xml.Element := do
  Report.tell [match o.source with
    | .version v => .builtInVersion v.number
    | .file path => .descriptionFile path]
  let path := o.sourcePath env
  Report.tell [.reading path]
  let text ← Report.ofExcept ((read path).mapError (.file path))
  Report.ofExcept ((Xml.parse text).mapError .document)

/-- The sound schema of the description that the options ask for. -/
def loadSchema (read : Reader) (env : Environment) (o : Options) : Report Error Schema := do
  let root ← load read env o
  let schema ← (Schema.ofRoot root).mapError .schema
  schema.validate.mapError .schema
  pure schema

/-- The text of the document that the options ask for. -/
def render (read : Reader) (env : Environment) (o : Options) : Report Error String := do
  let schema ← loadSchema read env o
  let document ← (schema.document (o.generatedAt env) o.root).mapError .typeScript
  pure document.text

/-- Makes the document in a store: the store afterwards, and the path written. -/
def generate (store : Files.Store) (env : Environment) (o : Options) :
    Files.Store × Report Error String :=
  let rendered := render store.readText env o
  match rendered.result with
  | .error e => (store, ⟨rendered.notices, .error e⟩)
  | .ok text =>
    match store.write o.output text with
    | (store, some (path, fault)) => (store, ⟨rendered.notices, .error (.file path fault)⟩)
    | (store, none) =>
      (store, ⟨rendered.notices ++ [.wrote text.utf8ByteSize o.output], .ok o.output⟩)

/-- The text of the document of a description in a file. -/
def renderFile (read : Reader) (path : String) (generated : Option Timestamp)
    (root : Option String) : Report TypeScript.Error String := do
  let text ← Report.ofExcept ((read path).mapError .file)
  TypeScript.ofText text generated root

end SoapTypes.Generation
