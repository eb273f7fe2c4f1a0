import CertRotation.Renewal.Assessment
import CertRotation.Rotation.Error

/-!
# Installation cycles

A cycle assesses what is installed and, if that is missing or due for renewal, loads new material, backs up, installs
and runs two hooks. `runCycle` is this protocol for any installer in any world; it tells events on the way, and its
report repeats what they told.
-/
namespace CertRotation.Rotation

/-- A computation that may change a world `σ` and may fail. What it has changed until then stays. -/
abbrev Effect (σ α : Type) := ExceptT Error (StateM σ) α

/-- What became of the old bundle before a new one is put in its place. -/
inductive Backup where
  | skipped
  | created (path : String) (bytes : Nat)
  deriving DecidableEq, Repr

def Backup.text : Backup → String
  | skipped => "no existing certificate, no backup taken"
  | created path bytes => s!"backed up {bytes} bytes to {path}"

/-- The steps of a cycle for one target. -/
structure Installer (σ : Type) where
  target : String
  /-- Look at what is installed, against a threshold as it was written. -/
  assess : (renewBefore : String) → (now : Instant) → Effect σ Assessment
  backup : Effect σ Backup
  /-- Install a bundle of the material and count its octets. -/
  install : PemMaterial → Effect σ Nat
  afterInstall : Effect σ (Option InstructionOutput)
  validate : Effect σ (Option InstructionOutput)

/-- Whether an installation is needed. -/
def Installer.checkAt {σ : Type} (i : Installer σ) (renewBefore : String) (now : Instant) : Effect σ Bool := do
  return (← i.assess renewBefore now).needsInstall

structure Options where
  renewBefore : String := "30d"
  /-- Install in any case. -/
  force : Bool := false
  now : Instant
  deriving DecidableEq, Repr

inductive Hook where
  | afterInstall
  | validation
  deriving DecidableEq, Repr

inductive Event where
  | checkBypassed
  | checkStarted
  | checkComplete (a : Assessment)
  | upToDate
  | backupComplete (b : Backup)
  | installStarted
  | installComplete (bytes : Nat)
  | hookComplete (h : Hook) (o : InstructionOutput)
  | hookSkipped (h : Hook)
  deriving DecidableEq, Repr

inductive Action where
  | skipped
  | installed
  deriving DecidableEq, Repr

/-- What a cycle did. A field is missing if its step was not reached or not configured. -/
structure Report where
  target : String
  action : Action := .skipped
  check : Option Assessment := none
  backup : Option Backup := none
  bundleBytes : Option Nat := none
  afterInstall : Option InstructionOutput := none
  validation : Option InstructionOutput := none
  deriving DecidableEq, Repr

/-- A world and the events so far. -/
structure Progress (σ : Type) where
  world : σ
  events : List Event := []

/-- A part of a cycle in the world `σ`. -/
abbrev Cycle (σ α : Type) := Effect (Progress σ) α

section
variable {σ α : Type}

def tell (e : Event) : Cycle σ Unit := modify fun p => { p with events := p.events ++ [e] }

def perform (a : Effect σ α) : Cycle σ α := fun p =>
  let (r, world) := a.run p.world
  (r, { p with world })

def runHook (h : Hook) (a : Effect σ (Option InstructionOutput)) : Cycle σ (Option InstructionOutput) := do
  let o ← perform a
  tell (match o with
    | some o => .hookComplete h o
    | none => .hookSkipped h)
  return o

/-- The assessment, unless it is bypassed. -/
def check (i : Installer σ) (o : Options) : Cycle σ (Option Assessment) := do
  if o.force then
    tell .checkBypassed
    return none
  else
    tell .checkStarted
    let a ← perform (i.assess o.renewBefore o.now)
    tell (.checkComplete a)
    return some a

/-- Refuse an installation whose validation says no. -/
def judge (o : Option InstructionOutput) : Cycle σ Unit :=
  match o with
  | some o => if o.validationPassed = some false then throw (.hook (.validationFailed o.stdout)) else pure ()
  | none => pure ()

/-- Replace the bundle. `checked` is the assessment that has led here, if there was one. -/
def replace (i : Installer σ) (load : Effect σ PemMaterial) (checked : Option Assessment) : Cycle σ Report := do
  let material ← perform load
  let backup ← perform i.backup
  tell (.backupComplete backup)
  tell .installStarted
  let bytes ← perform (i.install material)
  tell (.installComplete bytes)
  let afterInstall ← runHook .afterInstall i.afterInstall
  let validation ← runHook .validation i.validate
  judge validation
  return { target := i.target, action := .installed, check := checked, backup := some backup
           bundleBytes := some bytes, afterInstall, validation }

/-- Run a cycle. The material is loaded only if it is going to be installed. -/
def runCycle (i : Installer σ) (load : Effect σ PemMaterial) (o : Options) : Cycle σ Report := do
  let checked ← check i o
  if checked.all Assessment.needsInstall then replace i load checked
  else
    tell .upToDate
    return { target := i.target, check := checked }

end

end CertRotation.Rotation
