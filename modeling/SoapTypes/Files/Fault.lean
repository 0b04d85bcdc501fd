/-!
# Failures of file operations

Why the file system refuses an operation, and its wording.
-/

namespace SoapTypes.Files

/-- Why a file cannot be read or written. -/
inductive Fault
  | notFound
  | alreadyExists
  | notDirectory
  | isDirectory
  /-- The name stands for a directory in use, such as the working directory. -/
  | busy
  /-- A path, or a name in it, has more bytes than the system takes. -/
  | nameTooLong
  /-- The path holds a NUL character. -/
  | nulInName
  /-- The bytes are not the UTF-8 form of a text. -/
  | notText
  /-- Any other failure, with the wording of the system. -/
  | other (message : String)
  deriving DecidableEq, Repr

def Fault.message : Fault → String
  | notFound => "No such file or directory (os error 2)"
  | alreadyExists => "File exists (os error 17)"
  | notDirectory => "Not a directory (os error 20)"
  | isDirectory => "Is a directory (os error 21)"
  | busy => "Device or resource busy (os error 16)"
  | nameTooLong => "File name too long (os error 36)"
  | nulInName => "file name contained an unexpected NUL byte"
  | notText => "stream did not contain valid UTF-8"
  | other message => message

end SoapTypes.Files
