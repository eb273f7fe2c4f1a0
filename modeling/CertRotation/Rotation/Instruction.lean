import CertRotation.Files.Action
import CertRotation.Text.Blank
import CertRotation.Text.Quoted
import CertRotation.Wording

/-!
# Instructions

An instruction is a text that is handed to a runner as it is. The runner answers with what the instruction printed and
how it ended, or with the reason why it did not start.
-/
namespace CertRotation

/-- What an instruction printed and how it ended. -/
structure InstructionOutput where
  stdout : String := ""
  stderr : String := ""
  /-- Missing if a signal ended it. -/
  exitCode : Option Int := some 0
  success : Bool := true
  deriving DecidableEq, Repr

/-- The verdict of a validation: it prints `0` for yes and `1` for no. -/
def InstructionOutput.validationPassed (o : InstructionOutput) : Option Bool :=
  match Text.trim o.stdout with
  | "0" => some true
  | "1" => some false
  | _ => none

def InstructionOutput.statusText (o : InstructionOutput) : String :=
  match o.exitCode with
  | some n => s!"exit code {n}"
  | none => "a signal"

abbrev Runner := String → FileTree → List Files.Step × Except Files.Fault InstructionOutput

/-- Why an instruction counts as failed. -/
inductive HookError where
  | spawn (instruction : String) (fault : Files.Fault)
  | failed (instruction status stderr : String)
  | validationFailed (output : String)
  deriving DecidableEq, Repr

def HookError.message (w : Wording) : HookError → String
  | spawn instruction fault => s!"failed to start instruction \x60{instruction}\x60: {w.fault fault}"
  | failed instruction status stderr => s!"instruction \x60{instruction}\x60 exited with {status}: {stderr}"
  | validationFailed output => s!"install validation reported failure (output: {Text.Quoted.quote output})"

end CertRotation
