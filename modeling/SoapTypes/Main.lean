import Std.Time.DateTime.Timestamp
import SoapTypes.CommandLine.Outcome

/-!
# The program

The outer layer: it reads the file, the clock and the environment, writes the document, and
prints what the outcome holds.
-/

namespace SoapTypes.Program

open Generation

/-- The fault behind a failure of the system. -/
def faultOf (e : IO.Error) : Files.Fault :=
  match e with
  | .noFileOrDirectory _ 2 _ => .notFound
  | .alreadyExists _ 17 _ => .alreadyExists
  | .inappropriateType _ 20 _ => .notDirectory
  | .inappropriateType _ 21 _ => .isDirectory
  | .resourceBusy 16 _ => .busy
  | .invalidArgument _ 36 _ => .nameTooLong
  | e => .other (toString e)

/-- Runs an action and catches the failure of the system, if there is one. -/
def attempt {α : Type} (action : IO α) : IO (Except Files.Fault α) := do
  match ← action.toBaseIO with
  | .ok a => pure (.ok a)
  | .error e => pure (.error (faultOf e))

/-- The text of a file. -/
def readText (path : String) : IO (Except Files.Fault String) := do
  match ← attempt (IO.FS.readBinFile path) with
  | .error f => pure (.error f)
  | .ok contents =>
    match String.fromUTF8? contents with
    | some text => pure (.ok text)
    | none => pure (.error .notText)

/-- Writes a file as a whole, after making the directory that holds it. -/
def write (path text : String) : IO (Except Error Unit) := do
  let directory := Files.directoryOf path
  let draft := Files.draftPath (← IO.currentDir).toString directory
  let made ← attempt do
    IO.FS.createDirAll directory
    IO.FS.writeFile draft text
  match made with
  | .error f => pure (.error (.file directory f))
  | .ok () =>
    match ← attempt (IO.FS.rename draft path) with
    | .ok () => pure (.ok ())
    | .error f =>
      let _ ← attempt (IO.FS.removeFile draft)
      pure (.error (.file path f))

/-- Prints the notices that are not for debugging only. -/
def tell (notices : List Notice) : IO Unit :=
  notices.forM fun e => unless e.level = .debug do
    IO.eprintln (e.level.name ++ " " ++ e.message)

/-- Makes and writes the document that the options ask for. -/
def run (env : Environment) (o : Options) : IO (Except Error String) := do
  let contents ← readText (o.sourcePath env)
  let rendered := render (fun _ => contents) env o
  tell rendered.notices
  match rendered.result with
  | .error e => pure (.error e)
  | .ok text =>
    match ← write o.output text with
    | .error e => pure (.error e)
    | .ok () =>
      tell [.wrote text.utf8ByteSize o.output]
      pure (.ok o.output)

/-- What the program finds around it. -/
def environment : IO Environment := do
  let resourceDir ← IO.getEnv "WSDL2TS_RESOURCE_DIR"
  let now ← Std.Time.Timestamp.now
  pure ⟨resourceDir.getD "resources", ⟨now.toSecondsSinceUnixEpoch.toInt, 0⟩⟩

/-- Prints an outcome and gives its code. -/
def finish (o : CommandLine.Outcome) : IO UInt32 := do
  IO.print o.stdout
  IO.eprint o.stderr
  pure o.code

end SoapTypes.Program

open SoapTypes in
/-- The command line. -/
def main (arguments : List String) : IO UInt32 := do
  match CommandLine.parse arguments with
  | .error e => Program.finish (CommandLine.refusal e)
  | .ok .version => Program.finish { code := 0, stdout := CommandLine.versionText }
  | .ok (.help full) => Program.finish { code := 0, stdout := CommandLine.helpText full }
  | .ok (.run o) =>
    Program.finish (CommandLine.outcomeOf (← Program.run (← Program.environment) o))
