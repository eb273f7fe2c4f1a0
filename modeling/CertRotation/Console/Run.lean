import CertRotation.CommandLine.Parse
import CertRotation.Console.Json
import CertRotation.Console.Text
import CertRotation.Rotation.Target
import CertRotation.Settings.Reading

/-!
# Running commands

`Command.run` carries a command out in a world and collects what it prints. Nobody is asked for a password: a
command that needs one and was given none fails.
-/
namespace CertRotation.Console

/-- Why a command fails. -/
inductive Failure where
  | rotation (e : Rotation.Error)
  | bundle (e : Bundle.Error)
  | settings (e : Settings.Error)
  /-- The file at `path` cannot be read. -/
  | unreadable (path : String) (fault : Files.Fault)
  | passwordNeeded (path : String)
  /-- The installation at `file` says nothing about where its material comes from. -/
  | noSource (file : String)
  | installation (file : String) (e : Rotation.Error)
  deriving DecidableEq, Repr

def Failure.causes (w : Wording) : Failure → List String
  | rotation e => e.causes w
  | bundle e => Rotation.bundleCauses w e
  | settings e => [e.message w]
  | unreadable path fault => [s!"Failed to read {path}", w.fault fault]
  | passwordNeeded path => [s!"PKCS#12 file {path} requires a password (use --password or P12_PASSWORD)"]
  | noSource file => [s!"installation {file} has no [source] to install from"]
  | installation file e => s!"installation {file} failed" :: e.causes w

def Failure.message (w : Wording) (f : Failure) : String := ": ".intercalate (f.causes w)

/-- A world and the lines printed so far. -/
structure Session where
  world : World
  lines : List String := []

abbrev Run (α : Type) := ExceptT Failure (StateM Session) α

def say (lines : List String) : Run Unit := modify fun s => { s with lines := s.lines ++ lines }

def ofExcept {α : Type} (r : Except Failure α) : Run α := fun s => (r, s)

def filesNow : Run FileTree := fun s => (.ok s.world.files, s)

def inWorld {α : Type} (wrap : Rotation.Error → Failure) (a : Rotation.Effect World α) : Run α := fun s =>
  let (r, world) := a.run s.world
  (r.mapError wrap, { s with world })

/-- Run a cycle, telling its events as they come, and sum it up. -/
def cycle (wrap : Rotation.Error → Failure) (i : Rotation.Installer World) (load : Rotation.Effect World PemMaterial)
    (o : Rotation.Options) : Run Unit := do
  let r ← fun s =>
    let (r, p) := (Rotation.runCycle i load o).run ⟨s.world, []⟩
    (r.mapError wrap, (⟨p.world, s.lines ++ p.events.filterMap (eventLine? o.now)⟩ : Session))
  say [reportLine r]

def requirePassword (path : String) (password : Option String) : Except Failure String :=
  match password with
  | some p => .ok p
  | none => .error (.passwordNeeded path)

/-! ## The commands -/

def installNeeded : Nat := 10

/-- Nothing has to be decrypted if nothing is installed. -/
def check (now : Instant) (file : String) (password : Option String) (renewBefore : String) (json : Bool) : Run Nat := do
  let t ← filesNow
  let isThere ← ofExcept ((Files.about file (t.fileExists file)).mapError fun f => .rotation (.files f))
  let p ← if isThere then ofExcept (requirePassword file password) else pure (password.getD "")
  let i : Installation := { file, password := p }
  let a ← ofExcept ((i.assess renewBefore now t).mapError .rotation)
  if json then say [(checkJson file renewBefore a).pretty] else say [assessmentLine now a]
  return if a.needsInstall then installNeeded else 0

def backup (file : String) : Run Unit := do
  let i : Installation := { file }
  let b ← inWorld .rotation (Rotation.act i.backup)
  say [backupLine b]

def install (s : Surroundings) (now : Instant) (a : InstallArguments) : Run Unit := do
  let password ← ofExcept (requirePassword a.file a.password)
  let source : PemSource := ⟨a.certificate, a.key, a.chain, a.keyPassword⟩
  let material ← inWorld .rotation source.loadHere
  let i : Installation := ⟨a.file, password, a.renewBefore, a.afterAction, a.validation⟩
  cycle .rotation (i.installer s) (pure material) ⟨a.renewBefore, a.force, now⟩

def inspect (now : Instant) (file : String) (password : Option String) (json : Bool) : Run Unit := do
  let t ← filesNow
  let data ← ofExcept ((t.read file).mapError (.unreadable file))
  let p ← ofExcept (requirePassword file password)
  let b ← ofExcept ((Bundle.decode data p).mapError .bundle)
  let leaf ← ofExcept (b.leafSummary.mapError .bundle)
  let chain ← ofExcept (b.chainSummaries.mapError .bundle)
  if json then say [(inspectJson file leaf chain).pretty] else say (bundleLines file now leaf chain)

def installAll (s : Surroundings) (now : Instant) (force : Bool) : List Settings.Entry → Run Unit
  | [] => pure ()
  | e :: rest => do
    let i := e.installation
    say (header i.file)
    match e.source with
    | none => throw (.noSource i.file)
    | some source =>
      cycle (.installation i.file) (i.installer s) source.loadHere ⟨i.renewBefore, force, now⟩
      installAll s now force rest

def runSettings (s : Surroundings) (now : Instant) (config : Option String) (force : Bool) : Run Unit := do
  let t ← filesNow
  let settings ← ofExcept ((Settings.load t config).mapError .settings)
  if settings.installations.isEmpty then say [warning "No installations configured"]
  else installAll s now force settings.installations

/-- What a command leaves behind. -/
structure Outcome where
  world : World
  /-- Lines for the standard output. -/
  lines : List String
  /-- The exit code, or why the command failed. -/
  result : Except Failure Nat

def Outcome.exitCode (o : Outcome) : Nat :=
  match o.result with
  | .ok n => n
  | .error _ => 1

def Outcome.text (o : Outcome) : String := String.join (o.lines.map (· ++ "\n"))

/-- The exit code of a command that only succeeds or fails. -/
def thenZero (a : Run Unit) : Run Nat := do
  a
  return 0

def perform (s : Surroundings) (now : Instant) : Command → Run Nat
  | .check file password renewBefore json => check now file password renewBefore json
  | .backup file => thenZero (backup file)
  | .install a => thenZero (install s now a)
  | .inspect file password json => thenZero (inspect now file password json)
  | .run config force => thenZero (runSettings s now config force)

def run (s : Surroundings) (now : Instant) (w : World) (c : Command) : Outcome :=
  let (result, session) := (perform s now c).run ⟨w, []⟩
  ⟨session.world, session.lines, result⟩

end CertRotation.Console
