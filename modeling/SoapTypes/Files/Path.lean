/-!
# Paths

A path is a text whose pieces are separated by slashes. Empty pieces and single dots lead
nowhere, so the directory that holds a file is found by leaving out the last piece that does
lead somewhere and what does not lead anywhere around it.
-/

namespace SoapTypes.Files

/-- The pieces of a path between its slashes. -/
def pieces (path : String) : List String :=
  (path.toList.splitOn '/').map String.ofList

/-- Whether a piece of a path leads anywhere. -/
def isStep (piece : String) : Bool :=
  piece != "" && piece != "."

/-- A path with a further piece. -/
def join (directory piece : String) : String :=
  if directory == "" || directory.toList.getLast? == some '/' then directory ++ piece
  else directory ++ "/" ++ piece

/-- What a path starts with before its steps: a slash, a lone dot, or nothing. -/
def anchor (path : String) : String :=
  match path.toList with
  | '/' :: _ => "/"
  | ['.'] | '.' :: '/' :: _ => "."
  | _ => ""

/-- The pieces of a path behind its anchor, the last one first and a step. -/
def steps (path : String) : List String :=
  (pieces (String.ofList (path.toList.drop (anchor path).length))).reverse.dropWhile (!isStep ·)

/-- The path of the directory that holds what a path leads to, if the path tells. -/
def parent? (path : String) : Option String :=
  match steps path with
  | _ :: before =>
    some (anchor path ++ "/".intercalate (before.dropWhile (!isStep ·)).reverse)
  | [] => if anchor path == "." then some "" else none

/-- The path of the directory that holds the file of a path. -/
def directoryOf (path : String) : String :=
  match parent? path with
  | none | some "" => "."
  | some directory => directory

/-- The path of a directory as told from the root, given the path of the working directory. -/
def absolute (working directory : String) : String :=
  if anchor directory == "/" then directory else join working directory

/-- The path at which a file is prepared, beside the place that it takes when it is finished. -/
def draftPath (working directory : String) : String :=
  join (absolute working directory) ".tmp-draft"

end SoapTypes.Files
