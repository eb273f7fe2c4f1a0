import CertRotation.Files.Action
import CertRotation.Shell.Script

/-!
# The state of a running shell

Output goes to numbered streams, each of which leads to a buffer or a file. Whatever is changed in files is recorded
step by step.
-/
namespace CertRotation.Shell

/-- Where the output of a stream goes. -/
inductive Sink where
  | buffer (n : Nat)
  | file (place : Location)
  | discard
  deriving DecidableEq, Repr

structure Machine where
  files : FileTree
  steps : List Files.Step := []
  /-- What has been printed, newest first. The first two are the output and the errors of the whole script. -/
  buffers : List Bytes := [[], []]
  input : Bytes := []
  sinks : List (Nat × Sink) := [(1, .buffer 0), (2, .buffer 1)]
  bindings : List (String × String) :=
    [("PATH", "/usr/local/sbin:/usr/local/bin:/usr/sbin:/usr/bin:/sbin:/bin"), ("IFS", " \t\n"), ("OPTIND", "1"),
     ("PS2", "> "), ("PS4", "+ ")]
  /-- Variables that programs get to see. -/
  exported : List String := ["PATH"]
  readOnly : List String := []
  /-- Within a function: what its own variables hide. -/
  hidden : Option (List (String × Option String)) := none
  functions : List (String × Command) := []
  parameters : List String := []
  name : String := "sh"
  line : Nat := 1
  status : Nat := 0
  /-- Options that are switched on, by their letters. -/
  flags : List Char := []
  /-- What is run on signals, and at the end under the name `EXIT`. -/
  traps : List (String × String) := []
  /-- What the mode of a new file lacks. -/
  mask : Nat := 0o022
  /-- Loops around the current command. -/
  loops : Nat := 0
  /-- How the last command in the background ended. -/
  background : Option Nat := none
  /-- The status of the current command is looked at, so that it may fail. -/
  isTested : Bool := false
  /-- An error has come up that ends the shell. -/
  isBroken : Bool := false

namespace Machine

def take (m : Machine) (s : Files.Step) : Machine := { m with files := s.apply m.files, steps := m.steps ++ [s] }

def emit (m : Machine) (stream : Nat) (b : Bytes) : Machine :=
  match m.sinks.lookup stream with
  | some (.buffer n) => { m with buffers := m.buffers.modify n (b.reverse ++ ·) }
  | some (.file place) =>
    match m.files.node? place with
    | some (.file old _) => m.take (.write place (old ++ b))
    | _ => m
  | _ => m

def print (m : Machine) (s : String) : Machine := m.emit 1 (Bytes.ofString s)

def printLine (m : Machine) (s : String) : Machine := m.print (s ++ "\n")

def ended (m : Machine) (status : Nat) : Machine := { m with status }

def complain (m : Machine) (message : String) (status : Nat) : Machine :=
  (m.emit 2 (Bytes.ofString (message ++ "\n"))).ended status

def refuse (m : Machine) (message : String) (status : Nat) : Machine :=
  m.complain s!"{m.name}: {m.line}: {message}" status

/-- Like `refuse`, but the shell ends as well. -/
def abort (m : Machine) (message : String) (status : Nat) : Machine :=
  { m.refuse message status with isBroken := true }

def printed (m : Machine) (n : Nat) : Bytes := (m.buffers.getD n []).reverse

def unsetVariable (m : Machine) (name : String) : Machine := { m with bindings := m.bindings.filter (·.1 ≠ name) }

def setVariable (m : Machine) (name value : String) : Machine :=
  { m with bindings := (name, value) :: (m.unsetVariable name).bindings }

def restoreVariable (m : Machine) (name : String) : Option String → Machine
  | some value => m.setVariable name value
  | none => m.unsetVariable name

/-- Set a variable unless that is forbidden. -/
def assign (m : Machine) (name value : String) : Machine :=
  if m.readOnly.contains name then m.abort s!"{name}: is read only" 2 else m.setVariable name value

def separators (m : Machine) : List Char := ((m.bindings.lookup "IFS").getD " \t\n").toList

def setSink (m : Machine) (stream : Nat) (s : Sink) : Machine :=
  { m with sinks := (stream, s) :: m.sinks.filter (·.1 ≠ stream) }

def newMode (m : Machine) : Nat := 0o666 - (0o666 &&& m.mask)

/-- The place of a file that can be written to, which is created if it is missing. -/
def openFile (m : Machine) (path : String) : Except Files.Fault (Location × Machine) := do
  match ← m.files.resolve path with
  | .present place (.file ..) => pure (place, m)
  | .present .. => throw .isADirectory
  | .absent directory name =>
    let place := directory ++ [name]
    pure (place, (m.take (.create place)).take (.chmod place m.newMode))

def store (m : Machine) (path : String) (b : Bytes) : Except Files.Fault (Location × Machine) := do
  let (place, m) ← m.openFile path
  pure (place, m.take (.write place b))

end Machine

/-- The number that a text of decimal digits spells. -/
def digits? (s : String) : Option Nat :=
  if s ≠ "" ∧ s.toList.all Char.isDigit then s.toNat? else none

def faultText : Files.Fault → String
  | .notFound => "No such file or directory"
  | .notADirectory => "Not a directory"
  | .isADirectory => "Is a directory"
  | .nameTooLong => "File name too long"
  | .tooManyLinks => "Too many levels of symbolic links"
  | .busy => "Device or resource busy"
  | .denied => "Permission denied"
  | f => f.text

end CertRotation.Shell
