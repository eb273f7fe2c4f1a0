import CertRotation.Console.Run
import CertRotation.Shell.Run
import Std.Time.DateTime.Timestamp

/-!
# The program

The files that a command names are read into a file tree, the command is carried out on that tree, and the steps that
it took are then taken on the files themselves. What cannot be found out about a file, such as its mode, is set to what
reveals least. A file tree knows no faults of permission or of devices, so the program stops at those before anything is
changed. Instructions are run by the shell of this library on the same tree.
-/
namespace CertRotation.Program

/-! ## What a command looks at -/

def sourcePaths (s : PemSource) : List String := s.certificate :: s.privateKey.toList ++ s.chain.toList

def targetPaths (file : String) : List String := [file, Path.backup file]

def entryPaths (e : Settings.Entry) : List String :=
  targetPaths e.installation.file ++ (e.source.map sourcePaths).getD []

def commandPaths : Command → List String
  | .check file .. => [file]
  | .backup file => targetPaths file
  | .install a => targetPaths a.file ++ a.certificate :: a.key.toList ++ a.chain.toList
  | .inspect file .. => [file]
  | .run config _ => [config.getD Settings.defaultPath]

def settingsPaths (t : FileTree) : Command → List String
  | .run config _ =>
    match Settings.load t config with
    | .ok s => s.installations.flatMap entryPaths
    | .error _ => []
  | _ => []

/-! ## Files -/

/-- Whether names can be looked up at a location, which is so in a directory that must not be listed, but not in a
file. -/
def leadsOn (l : Location) : IO Bool := do
  try
    let _ ← IO.FS.readBinFile (Path.absolute (l ++ [Files.temporaryName 0]))
    return true
  catch e =>
    match e with
    | .noFileOrDirectory .. => return true
    | _ => return false

/-- What stands at a location. The program stops at a file that cannot be read, since what is in it is not known. -/
def probe (l : Location) : IO (Option Node) := do
  try
    let b ← IO.FS.readBinFile (Path.absolute l)
    return some (.file b.data.toList Files.privateMode)
  catch e =>
    match e with
    | .noFileOrDirectory .. => return none
    | .inappropriateType .. => return some .directory
    | .permissionDenied .. => if ← leadsOn l then return some .directory else throw e
    | _ => throw e

/-- Names for new files in a directory that are taken, at most `fuel` of them. -/
def takenNames (t : FileTree) (directory : Location) (n : Nat) : (fuel : Nat) → IO FileTree
  | 0 => return t
  | fuel + 1 => do
    let place := directory ++ [Files.temporaryName n]
    match ← probe place with
    | some node => takenNames (t.set place node) directory (n + 1) fuel
    | none => return t

/-- Add all that stands on the way that names lead from `here`, up to a name that nothing can have. -/
def snapshotFrom (t : FileTree) (here : Location) : List String → IO FileTree
  | [] => return t
  | "." :: rest => snapshotFrom t here rest
  | ".." :: rest => snapshotFrom t here.dropLast rest
  | name :: rest => do
    if FileTree.maxName < name.utf8ByteSize then return t
    let place := here ++ [name]
    match ← probe place with
    | some node => snapshotFrom (← takenNames (t.set place node) here 0 1000) place rest
    | none => takenNames t here 0 1000

/-- Add all that stands on the way of paths, except for those that a tree refuses without a look. -/
def snapshot (t : FileTree) (paths : List String) : IO FileTree :=
  (paths.filter fun path => (FileTree.check path).isOk).foldlM
    (fun t path => snapshotFrom t (t.start path) (Path.names path)) t

def accessRight (bits : Nat) : IO.AccessRight := ⟨bits / 4 % 2 = 1, bits / 2 % 2 = 1, bits % 2 = 1⟩

def setMode (l : Location) (mode : Nat) : IO Unit :=
  IO.setAccessRights (Path.absolute l) ⟨accessRight (mode / 64), accessRight (mode / 8), accessRight mode⟩

def octets (b : Bytes) : ByteArray := ⟨b.toArray⟩

def takeStep : Files.Step → IO Unit
  | .create place => do
    IO.FS.writeBinFile (Path.absolute place) ByteArray.empty
    setMode place Files.privateMode
  | .write place contents => IO.FS.writeBinFile (Path.absolute place) (octets contents)
  | .chmod place mode => setMode place mode
  | .rename source target => IO.FS.rename (Path.absolute source) (Path.absolute target)
  | .remove place => IO.FS.removeFile (Path.absolute place)
  | .makeDirectory place => IO.FS.createDir (Path.absolute place)

/-! ## Running -/

def seedsFrom (secret : Bytes) (n : Nat) : Keystore.Seeds :=
  let piece := fun (k size : Nat) => (sha256.digest (secret ++ Bytes.ofNat 8 (8 * n + k))).take size
  ⟨⟨piece 0 16, piece 1 16⟩, ⟨piece 2 16, piece 3 16⟩, piece 4 20⟩

def now : IO Instant := do
  let t ← Std.Time.Timestamp.now
  return ⟨t.toNanosecondsSinceUnixEpoch.toInt⟩

def carryOut (c : Command) : IO UInt32 := do
  let working := Path.names (← IO.currentDir).toString
  let above := (List.range working.length).map fun i => (working.take (i + 1), Node.directory)
  let named ← snapshot ⟨above, working⟩ (commandPaths c)
  let files ← snapshot named (settingsPaths named c)
  let secret ← IO.getRandomBytes 32
  let o := Console.run ⟨seedsFrom secret.data.toList, Shell.runner⟩ (← now) { files } c
  o.world.steps.forM takeStep
  IO.print o.text
  match o.result with
  | .ok _ => pure ()
  | .error f => IO.eprintln ("Error: " ++ f.message {})
  return o.exitCode.toUInt32

end CertRotation.Program

open CertRotation

/-- Read the command line and carry out what it asks for. -/
def main (args : List String) : IO UInt32 := do
  let bundlePassword ← IO.getEnv "P12_PASSWORD"
  let keyPassword ← IO.getEnv "P12_KEY_PASSWORD"
  let lookup := fun (name : String) =>
    if name = "P12_PASSWORD" then bundlePassword else if name = "P12_KEY_PASSWORD" then keyPassword else none
  match CommandLine.parse lookup args with
  | .ok i => Program.carryOut i.command
  | .error .help =>
    CommandLine.usageLines.forM IO.println
    return 0
  | .error (.version v) =>
    IO.println (CommandLine.versionText v)
    return 0
  | .error .nothing =>
    CommandLine.usageLines.forM IO.eprintln
    return 2
  | .error (.usage e) =>
    IO.eprintln s!"error: {e.message}"
    return 2
