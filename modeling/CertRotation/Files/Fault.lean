/-!
# Faults of file operations
-/
namespace CertRotation.Files

/-- Why an operation on a file, or the start of a program, fails. -/
inductive Fault where
  | notFound
  | notADirectory
  | isADirectory
  | nameTooLong
  | tooManyLinks
  | busy
  /-- A directory, or a file without the mode for it, cannot be run as a program. -/
  | denied
  /-- A path holds a NUL character. -/
  | nulInPath
  /-- A program argument holds a NUL character. -/
  | nulInArgument
  /-- A file that is read as text is not well-formed UTF-8. -/
  | notText
  deriving DecidableEq, Repr

def Fault.text : Fault → String
  | notFound => "No such file or directory (os error 2)"
  | notADirectory => "Not a directory (os error 20)"
  | isADirectory => "Is a directory (os error 21)"
  | nameTooLong => "File name too long (os error 36)"
  | tooManyLinks => "Too many levels of symbolic links (os error 40)"
  | busy => "Device or resource busy (os error 16)"
  | denied => "Permission denied (os error 13)"
  | nulInPath => "file name contained an unexpected NUL byte"
  | nulInArgument => "nul byte found in provided data"
  | notText => "stream did not contain valid UTF-8"

/-- A fault and the path that it is about. -/
structure Failure where
  path : String
  fault : Fault
  deriving DecidableEq, Repr

def Failure.message (wording : Fault → String) (f : Failure) : String :=
  s!"I/O error on {f.path}: {wording f.fault}"

def about {α : Type} (path : String) (r : Except Fault α) : Except Failure α := r.mapError fun e => ⟨path, e⟩

end CertRotation.Files
