import Std.Data.TreeMap
import SoapTypes.Files.Limit
import SoapTypes.Files.Path

/-!
# Stores

The directories and files of a system, as far as reading a file and replacing one show them. A
file is replaced as a whole or not at all, and the directories above it are made first.
-/

namespace SoapTypes.Files

/-- A place in a store: the names on the way to it from the root, the last one first. -/
abbrev Location := List String

/-- What is found in a place. -/
inductive Entry
  | directory
  | file (contents : ByteArray)

instance : DecidableEq Entry
  | .directory, .directory => isTrue rfl
  | .directory, .file _ => isFalse nofun
  | .file _, .directory => isFalse nofun
  | .file a, .file b =>
    decidable_of_iff (a.data = b.data) (by rw [Entry.file.injEq, ByteArray.ext_iff])

/-- The entries of a system. The root is a directory that needs no entry. -/
structure Store where
  /-- Where relative paths begin. -/
  working : Location
  entries : Std.TreeMap Location Entry

namespace Store

/-- What is found in a place, if anything. -/
def entry? (s : Store) (l : Location) : Option Entry :=
  if l = [] then some .directory else s.entries[l]?

/-- The store with something put into a place. -/
def insert (s : Store) (l : Location) (e : Entry) : Store :=
  { s with entries := s.entries.insert l e }

/-- The place itself, if it is a directory. -/
def directory (s : Store) (l : Location) : Except Fault Location :=
  match s.entry? l with
  | some .directory => .ok l
  | some (.file _) => .error .notDirectory
  | none => .error .notFound

/-- The place that has a name in a directory. -/
def child (l : Location) (name : String) : Except Fault Location :=
  (checkName name).map fun () => name :: l

/-- Where one piece of a path leads. -/
def move (l : Location) (piece : String) : Except Fault Location :=
  if piece == ".." then .ok l.tail else if isStep piece then child l piece else .ok l

/-- Follows the pieces of a path. All places on the way must be directories; the last one need
not exist. -/
def walk (s : Store) (l : Location) : List String → Except Fault Location
  | [] => .ok l
  | piece :: rest =>
    (s.directory l).bind fun l => (move l piece).bind fun l => s.walk l rest

/-- Where a path begins. -/
def origin (s : Store) (path : String) : Location :=
  if anchor path == "/" then [] else s.working

/-- The place to which a path leads. -/
def locate (s : Store) (path : String) : Except Fault Location :=
  (checkPath path).bind fun () => s.walk (s.origin path) (pieces path)

/-- The text of the file to which a path leads. -/
def readText (s : Store) (path : String) : Except Fault String :=
  (s.locate path).bind fun l =>
    match s.entry? l with
    | none => .error .notFound
    | some .directory => .error .isDirectory
    | some (.file contents) =>
      match String.fromUTF8? contents with
      | some text => .ok text
      | none => .error .notText

/-- Makes the directories that pieces lead through, as far as they are missing. A file in the way
is the wrong kind of thing to go through as long as all directories are there; behind the first
missing one, and at the last piece, it takes the place of a directory to be made. -/
def makeDirectories (s : Store) (l : Location) (made : Bool) :
    List String → Store × Option Fault
  | [] => (s, none)
  | piece :: rest =>
    match move l piece with
    | .error f => (s, some f)
    | .ok l =>
      match s.entry? l with
      | some .directory => s.makeDirectories l made rest
      | some (.file _) =>
        (s, some (if made || rest.isEmpty then .alreadyExists else .notDirectory))
      | none => (s.insert l .directory).makeDirectories l true rest

/-- The path of a place. -/
def pathOf (l : Location) : String :=
  "/" ++ "/".intercalate l.reverse

/-- Makes a directory in which a file can be prepared, with those above it. -/
def prepare (s : Store) (directory : String) : Store × Option Fault :=
  match checkPath directory with
  | .error f => (s, some f)
  | .ok () =>
    match s.makeDirectories (s.origin directory) false (steps directory).reverse with
    | (s, some f) => (s, some f)
    | (s, none) =>
      match checkPath (draftPath (pathOf s.working) directory) with
      | .error f => (s, some f)
      | .ok () => (s, none)

/-- Puts a finished file into the place of a path, where no directory may be. -/
def replace (s : Store) (path : String) (contents : ByteArray) : Except Fault Store :=
  (checkPath path).bind fun () =>
    match (pieces path).reverse.dropWhile (· == "") with
    | [] => .error .busy
    | name :: reversed =>
      ((s.walk (s.origin path) reversed.reverse).bind s.directory).bind fun l =>
        if name == "." || name == ".." then .error .busy
        else (child l name).bind fun place =>
          if path.toList.getLast? == some '/' then .error .notDirectory
          else if s.entry? place = some .directory then .error .isDirectory
          else .ok (s.insert place (.file contents))

/-- Writes a file as a whole, after making the directory that holds it. A failure carries the
path at fault. -/
def write (s : Store) (path text : String) : Store × Option (String × Fault) :=
  let directory := directoryOf path
  match s.prepare directory with
  | (s, some f) => (s, some (directory, f))
  | (s, none) =>
    match s.replace path text.toUTF8 with
    | .ok s => (s, none)
    | .error f => (s, some (path, f))

end Store

end SoapTypes.Files
