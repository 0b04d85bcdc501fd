import SoapTypes.CommandLine.Help
import SoapTypes.Generation.Run

/-!
# Outcomes of a call

What a call prints and the code it ends with: 0 after success, 1 after a failed run and 2 after
arguments that are refused.
-/

namespace SoapTypes.CommandLine

open Generation

/-- What the user of a call is left with. -/
structure Outcome where
  code : UInt32
  stdout : String := ""
  stderr : String := ""
  deriving DecidableEq, Repr

/-- A text whose further lines are indented. -/
def indented (indent text : String) : String :=
  ("\n" ++ indent).intercalate ((text.toList.splitOn '\n').map String.ofList)

/-- The accounts of a cause, each with its number behind the outermost one; a single account has
no number. -/
def causes (chain : List String) : List String :=
  match chain with
  | [text] => ["    " ++ indented "    " text]
  | texts =>
    texts.zipIdx.map fun (text, n) =>
      String.ofList ((toString n).toList.leftpad 5 ' ') ++ ": " ++ indented "       " text

/-- What is printed about a failed run. -/
def failureText (e : Generation.Error) : String :=
  Text.unlines <|
    ["Error: failed to generate TypeScript types", "", "Caused by:"] ++ causes e.chain

/-- The name and the version of the program. -/
def versionText : String := "wsdl2ts 0.1.0\n"

/-- The outcome of a run. -/
def outcomeOf (result : Except Generation.Error String) : Outcome :=
  match result with
  | .ok _ => { code := 0 }
  | .error e => { code := 1, stderr := failureText e }

/-- The outcome of arguments that are refused. -/
def refusal (e : UsageError) : Outcome :=
  { code := 2
    stderr := Text.unlines [s!"error: {e.message}", "", "For more information, try '--help'."] }

/-- A call on a store of files: the store afterwards, and the outcome. -/
def call (store : Files.Store) (env : Environment) (arguments : List String) :
    Files.Store × Outcome :=
  match parse arguments with
  | .error e => (store, refusal e)
  | .ok .version => (store, { code := 0, stdout := versionText })
  | .ok (.help full) => (store, { code := 0, stdout := helpText full })
  | .ok (.run o) =>
    let (store, report) := generate store env o
    (store, outcomeOf report.result)

end SoapTypes.CommandLine
