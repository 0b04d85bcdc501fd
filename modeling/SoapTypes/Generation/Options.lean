import SoapTypes.Calendar
import SoapTypes.Generation.Version

/-!
# Options

What to read, what to write and where. Of several descriptions asked for, the newest version
comes first, then a version by its number, then a file; without any the newest version is read.
-/

namespace SoapTypes.Generation

/-- The options of a run. -/
structure Options where
  /-- The path of the file to be written. -/
  output : String := "metadata-types.ts"
  /-- Whether to read the newest version whatever else is given. -/
  latest : Bool := false
  version : Option Version := none
  /-- The path of a description to be read. -/
  description : Option String := none
  /-- The directory that holds the built-in versions. -/
  resourceDir : Option String := none
  /-- The type whose family is listed in the document. -/
  root : Option String := none
  /-- Whether the document tells when it was made. -/
  timestamp : Bool := true
  deriving DecidableEq, Repr

/-- Where the description is read from. -/
inductive Source
  | version (version : Version)
  | file (path : String)
  deriving DecidableEq, Repr

/-- What a run finds around it. -/
structure Environment where
  /-- The directory of resources that holds if the options give none. -/
  resourceDir : String
  /-- The time of the run. -/
  now : Timestamp

namespace Options

/-- The description that the options ask for. -/
def source (o : Options) : Source :=
  if o.latest then .version .latest
  else
    match o.version, o.description with
    | some v, _ => .version v
    | none, some path => .file path
    | none, none => .version .latest

/-- The directory that holds the built-in versions. -/
def resourceDirIn (o : Options) (env : Environment) : String :=
  o.resourceDir.getD env.resourceDir

/-- The path of the description that the options ask for. -/
def sourcePath (o : Options) (env : Environment) : String :=
  match o.source with
  | .version v => v.path (o.resourceDirIn env)
  | .file path => path

/-- The time that the document tells. -/
def generatedAt (o : Options) (env : Environment) : Option Timestamp :=
  if o.timestamp then some env.now else none

end Options

end SoapTypes.Generation
