import SoapTypes.CommandLine.Arguments
import SoapTypes.Text.Lines

/-!
# Help

What is printed when help is asked for. The summary, asked for by the letter, has one line for each
option. The full help, asked for by the name, says below each option all that there is to say.
-/

namespace SoapTypes.CommandLine

/-- What help says about an option. -/
structure HelpEntry where
  letter : Option Char := none
  name : String
  /-- The word that stands for the value, if the option takes one. -/
  placeholder : Option String := none
  summary : String
  /-- What is said in place of the summary in the full help. -/
  paragraphs : List String := [summary]
  /-- The value that holds if the option is not given. -/
  preset : Option String := none

namespace HelpEntry

/-- The name of an option and the place of its value. -/
def usage (e : HelpEntry) : String :=
  match e.placeholder with
  | some word => "--" ++ e.name ++ " <" ++ word ++ ">"
  | none => "--" ++ e.name

/-- What stands in front of the name: the letter of the option, or blanks. -/
def margin (e : HelpEntry) : String :=
  match e.letter with
  | some c => "  -" ++ String.singleton c ++ ", "
  | none => "      "

/-- The value that holds without the option, as it is told. -/
def presetNote? (e : HelpEntry) : Option String :=
  e.preset.map fun value => "[default: " ++ value ++ "]"

/-- The line of an option in the summary. Names take up `width` columns. -/
def line (width : Nat) (e : HelpEntry) : String :=
  e.margin ++ String.ofList (e.usage.toList.rightpad (width + 2) ' ') ++
    " ".intercalate (e.summary :: e.presetNote?.toList)

/-- The lines of an option in the full help. -/
def block (e : HelpEntry) : List String :=
  (e.margin ++ e.usage) ::
    ((e.paragraphs ++ e.presetNote?.toList).intersperse "").map ("          " ++ ·)

end HelpEntry

/-- What help says about an option of the command line. -/
def Setting.help (s : Setting) : HelpEntry :=
  match s with
  | output =>
    { letter := some 'o'
      name := s.name
      placeholder := some "FILE"
      summary := "Output TypeScript file"
      preset := some ({} : Generation.Options).output }
  | latest =>
    { name := s.name
      summary := "Use the newest built-in WSDL, ignoring other sources"
      paragraphs := [
        "Use the newest built-in WSDL, ignoring other sources.",
        "Built-in WSDLs are not shipped: the file must exist at " ++
          "<resource dir>/wsdl/metadata/<version>.xml. " ++
          "Without --wsdl this is also the default source."] }
  | metadataVersion =>
    { name := s.name
      placeholder := some "VERSION"
      summary := "Built-in WSDL version to use, read from " ++
        "<resource dir>/wsdl/metadata/<version>.xml (not shipped; see --resource-dir)" }
  | wsdl =>
    { name := s.name
      placeholder := some "PATH"
      summary := "WSDL file to read" }
  | resourceDir =>
    { name := s.name
      placeholder := some "DIR"
      summary := "Directory holding built-in WSDL versions " ++
        "[default: $WSDL2TS_RESOURCE_DIR, else the crate's resources directory]" }
  | rootType =>
    { name := s.name
      placeholder := some "TYPE"
      summary := "Emit a discriminator union of all types extending this root type" }
  | noTimestamp =>
    { name := s.name
      summary := "Omit the generation timestamp from the banner" }

/-- What help says, in order: the options, and how to ask for help and for the version. -/
def helpEntries : List HelpEntry :=
  Setting.all.map Setting.help ++ [
    { letter := some 'h'
      name := "help"
      summary := "Print help (see more with '--help')"
      paragraphs := ["Print help (see a summary with '-h')"] },
    { letter := some 'V'
      name := "version"
      summary := "Print version" }]

/-- How the program is called: in full, or as a summary. -/
def helpText (full : Bool) : String :=
  let width := (helpEntries.map (·.usage.length)).foldl max 0
  Text.unlines <|
    ["Generate TypeScript type declarations from SOAP WSDL schemas", "",
      "Usage: wsdl2ts [OPTIONS]", "", "Options:"] ++
    if full then [""].intercalate (helpEntries.map (·.block)) else helpEntries.map (·.line width)

end SoapTypes.CommandLine
