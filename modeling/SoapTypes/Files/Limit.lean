import SoapTypes.Files.Fault

/-!
# Limits of paths

What a path is refused for whatever the store holds. Lengths count the bytes of the UTF-8 form.
-/

namespace SoapTypes.Files

/-- The most bytes that a name in a directory has. -/
def nameLimit : Nat := 255

/-- The most bytes that a whole path has. -/
def pathLimit : Nat := 4095

/-- Refuses a name that no directory can hold. -/
def checkName (name : String) : Except Fault Unit :=
  if nameLimit < name.utf8ByteSize then .error .nameTooLong else .ok ()

/-- Refuses a path that is not followed at all: one with a NUL character, the empty one, and one
that is too long. -/
def checkPath (path : String) : Except Fault Unit :=
  if '\x00' ∈ path.toList then .error .nulInName
  else if path == "" then .error .notFound
  else if pathLimit < path.utf8ByteSize then .error .nameTooLong
  else .ok ()

end SoapTypes.Files
