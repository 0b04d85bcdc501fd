import SoapTypes.Generation.Error
import SoapTypes.Generation.Options

/-!
# Arguments

What the arguments of a call ask for. They are taken from left to right, and the first one that
does not fit ends the reading, as does the wish for the version or for help. An option stands at
most once; its value follows in the next argument or in the same one.
-/

namespace SoapTypes.CommandLine

open Generation

/-- An option of the command line. -/
inductive Setting
  | output
  | latest
  | metadataVersion
  | wsdl
  | resourceDir
  | rootType
  | noTimestamp
  deriving DecidableEq, Repr

namespace Setting

/-- Every option, each once. -/
def all : List Setting :=
  [output, latest, metadataVersion, wsdl, resourceDir, rootType, noTimestamp]

/-- The name of an option, behind two dashes. -/
def name : Setting → String
  | output => "output"
  | latest => "latest"
  | metadataVersion => "metadata-version"
  | wsdl => "wsdl"
  | resourceDir => "resource-dir"
  | rootType => "root-type"
  | noTimestamp => "no-timestamp"

/-- Whether an option needs a value. The others are refused with one. -/
def takesValue : Setting → Bool
  | latest | noTimestamp => false
  | _ => true

end Setting

/-- Why arguments are refused. -/
inductive UsageError
  | unexpected (argument : String)
  | missingValue (setting : Setting)
  | unexpectedValue (setting : Setting)
  | repeated (setting : Setting)
  | emptyValue (setting : Setting)
  | version (error : Generation.Error)
  deriving DecidableEq, Repr

namespace UsageError

def message : UsageError → String
  | unexpected argument => s!"unexpected argument '{argument}' found"
  | missingValue s => s!"a value is required for '--{s.name}' but none was supplied"
  | unexpectedValue s => s!"unexpected value for '--{s.name}' found; no more were expected"
  | repeated s => s!"the argument '--{s.name}' cannot be used multiple times"
  | emptyValue s => s!"a value is required for '--{s.name}' but none was supplied"
  | version e => s!"invalid value for '--metadata-version': {e.message}"

end UsageError

/-- What one argument is, taken by itself. -/
inductive Argument
  /-- An option, with the value in the same argument if there is one. -/
  | setting (setting : Setting) (attached : Option String)
  | version
  /-- The wish for help, in full or as a summary. -/
  | help (full : Bool)
  /-- The sign that no options follow. -/
  | lastOption
  | other
  deriving DecidableEq, Repr

namespace Argument

/-- The argument of a name behind two dashes, its value behind an equals sign. -/
def ofLong (body : List Char) : Argument :=
  let name := String.ofList (body.takeWhile (· != '='))
  let attached :=
    match body.dropWhile (· != '=') with
    | [] => none
    | _ :: value => some (String.ofList value)
  match Setting.all.find? (·.name == name), attached with
  | some s, attached => setting s attached
  | none, none =>
    if name == "version" then version else if name == "help" then help true else other
  | none, some _ => other

/-- The argument of a letter behind one dash. The value may follow the letter at once or behind
an equals sign. What follows the letter of the version or of help is not looked at. -/
def ofShort (letter : Char) (rest : List Char) : Argument :=
  match letter, rest with
  | 'o', [] => setting .output none
  | 'o', '=' :: value => setting .output (some (String.ofList value))
  | 'o', value => setting .output (some (String.ofList value))
  | 'V', _ => version
  | 'h', _ => help false
  | _, _ => other

/-- What a single argument is. -/
def ofText (text : String) : Argument :=
  match text.toList with
  | ['-', '-'] => lastOption
  | '-' :: '-' :: body => ofLong body
  | '-' :: letter :: rest => ofShort letter rest
  | _ => other

end Argument

/-- Whether an argument can be the value of the option before it. -/
def canBeValue (text : String) : Bool :=
  text == "-" || text.toList.head? != some '-'

/-- The options with one of them given. Only the root type may be empty. -/
def give (o : Options) (s : Setting) (value : String) : Except UsageError Options :=
  match s with
  | .output => if value == "" then .error (.emptyValue s) else .ok { o with output := value }
  | .latest => .ok { o with latest := true }
  | .metadataVersion =>
    match Version.ofText value with
    | .ok v => .ok { o with version := some v }
    | .error e => .error (.version e)
  | .wsdl =>
    if value == "" then .error (.emptyValue s) else .ok { o with description := some value }
  | .resourceDir =>
    if value == "" then .error (.emptyValue s) else .ok { o with resourceDir := some value }
  | .rootType => .ok { o with root := some value }
  | .noTimestamp => .ok { o with timestamp := false }

/-- What a call asks for. -/
inductive Command
  | run (options : Options)
  | version
  | help (full : Bool)
  deriving DecidableEq, Repr

/-- The options with one of them given, unless it has been given before. -/
def giveOnce (given : List Setting) (o : Options) (s : Setting) (value : String) :
    Except UsageError Options :=
  if s ∈ given then .error (.repeated s) else give o s value

/-- Reads arguments behind those that have given the options `given` and led to `o`. -/
def parseFrom (given : List Setting) (o : Options) : List String → Except UsageError Command
  | [] => .ok (.run o)
  | argument :: rest =>
    match Argument.ofText argument with
    | .version => .ok .version
    | .help full => .ok (.help full)
    | .lastOption =>
      match rest with
      | [] => .ok (.run o)
      | next :: _ => .error (.unexpected next)
    | .other => .error (.unexpected argument)
    | .setting s attached =>
      if s.takesValue then
        match attached, rest with
        | some value, rest =>
          (giveOnce given o s value).bind fun o => parseFrom (s :: given) o rest
        | none, value :: rest =>
          if canBeValue value then
            (giveOnce given o s value).bind fun o => parseFrom (s :: given) o rest
          else .error (.missingValue s)
        | none, [] => .error (.missingValue s)
      else
        match attached with
        | some _ => .error (.unexpectedValue s)
        | none => (giveOnce given o s "").bind fun o => parseFrom (s :: given) o rest

/-- What the arguments of a call ask for. -/
def parse (arguments : List String) : Except UsageError Command :=
  parseFrom [] {} arguments

end SoapTypes.CommandLine
