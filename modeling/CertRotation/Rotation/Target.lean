import CertRotation.Rotation.Cycle

/-!
# Installing keystore files

The installer of an `Installation` works on a file tree. It keeps the steps that it takes, the instructions that it
hands to the runner with the files as they were then, and the number of bundles written, each of which has random
seeds of its own.
-/
namespace CertRotation

/-- An instruction that was handed to the runner. -/
structure Call where
  instruction : String
  /-- The files as it was handed over. -/
  files : FileTree

/-- Files, and what has happened so far. -/
structure World where
  files : FileTree
  /-- All steps on files. -/
  steps : List Files.Step := []
  calls : List Call := []
  /-- How many bundles have been packaged. -/
  packaged : Nat := 0

/-- What a world draws on. -/
structure Surroundings where
  /-- The random seeds of each bundle. -/
  seeds : Nat → Keystore.Seeds
  runner : Runner

namespace World

def advance (w : World) (steps : List Files.Step) : World :=
  { w with files := Files.after w.files steps, steps := w.steps ++ steps }

end World

namespace Rotation

def act {α : Type} (a : Files.Action α) : Effect World α := fun w =>
  let (steps, r) := a w.files
  (r.mapError .files, w.advance steps)

def observe {α : Type} (f : FileTree → Except Error α) : Effect World α := fun w => (f w.files, w)

def freshSeeds (s : Surroundings) : Effect World Keystore.Seeds := do
  let w ← get
  set { w with packaged := w.packaged + 1 }
  return s.seeds w.packaged

def instruct (s : Surroundings) (instruction : String) : Effect World InstructionOutput := fun w =>
  let (steps, r) := s.runner instruction w.files
  let called : World := { w with calls := w.calls ++ [⟨instruction, w.files⟩] }
  (r.mapError fun fault => .hook (.spawn instruction fault), called.advance steps)

end Rotation

namespace Installation
open Rotation

def read (i : Installation) (t : FileTree) : Except Error Bundle := do
  let data ← (Files.about i.file (t.read i.file)).mapError .files
  (Bundle.decode data i.password).mapError .bundle

/-- Assess what is installed. A file that cannot be read is an error and no reason to install. -/
def assess (i : Installation) (renewBefore : String) (now : Instant) (t : FileTree) : Except Error Assessment := do
  let threshold ← (Settings.parseThreshold "renew_before" renewBefore).mapError .settings
  if ← (Files.about i.file (t.fileExists i.file)).mapError .files then
    let b ← i.read t
    let c ← b.leafSummary.mapError .bundle
    pure (.ofSummary threshold c now)
  else pure .missing

/-- Copy what is installed, if there is something. -/
def backup (i : Installation) : Files.Action Backup := do
  if ← Files.Action.look i.file fun t => t.fileExists i.file then
    let path := Path.backup i.file
    let bytes ← Files.copyFile i.file path
    return .created path bytes
  else return .skipped

def install (s : Surroundings) (i : Installation) (m : PemMaterial) : Effect World Nat := do
  if i.password = "" then throw (.bundle .missingPassword)
  let seeds ← freshSeeds s
  match m.package seeds i.password with
  | .error e => throw (.bundle e)
  | .ok data =>
    act (Files.writeFile i.file data)
    return data.length

/-- Run an instruction unless it is blank. It has to end well. -/
def runInstruction (s : Surroundings) (instruction : Option String) : Effect World (Option InstructionOutput) :=
  match instruction.filter fun t => ! Text.isBlankText t with
  | none => pure none
  | some t => do
    let o ← instruct s t
    if o.success then return some o
    else throw (.hook (.failed t o.statusText o.stderr))

def installer (s : Surroundings) (i : Installation) : Installer World where
  target := i.file
  assess renewBefore now := observe (i.assess renewBefore now)
  backup := act i.backup
  install := i.install s
  afterInstall := runInstruction s i.afterAction
  validate := runInstruction s i.validation

end Installation

def PemSource.loadHere (p : PemSource) : Rotation.Effect World PemMaterial :=
  Rotation.observe fun t => (p.load t).mapError Rotation.Error.ofLoad

end CertRotation
