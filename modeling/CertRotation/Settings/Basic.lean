import CertRotation.Bundle.Source
import CertRotation.Renewal.Threshold

/-!
# Settings

The settings list the installations to look after. `Settings.validate` accepts them if no cycle can fail on account of
the settings; `Settings.resolve` takes their paths relative to a directory.
-/
namespace CertRotation

/-- A place where a bundle is installed, and how. -/
structure Installation where
  file : String
  password : String := ""
  /-- The threshold as it was written. -/
  renewBefore : String := "30d"
  /-- What to run once a bundle has been installed. -/
  afterAction : Option String := none
  /-- What to run to see whether the installation works. -/
  validation : Option String := none
  deriving DecidableEq, Repr

/-- One installation and where its material comes from. -/
structure Settings.Entry where
  installation : Installation
  source : Option PemSource := none
  deriving DecidableEq, Repr

structure Settings where
  installations : List Settings.Entry := []
  deriving DecidableEq, Repr

namespace Settings

/-- What is wrong with settings. -/
inductive Error where
  | notFound (path : String)
  | malformed
  /-- The text under `key` is no threshold. -/
  | threshold (key text : String) (e : Threshold.Error)
  | missing (key : String)
  deriving DecidableEq, Repr

def Error.message (w : Wording) : Error → String
  | notFound path => s!"Configuration file not found: {path}"
  | malformed => s!"Failed to parse configuration: {w.settings}"
  | threshold key text e => s!"Invalid configuration value for {key}: {Text.Quoted.quote text}: {e.message}"
  | missing key => s!"Missing required configuration: {key}"

/-! ## Validation -/

/-- The key of a field of the installation at place `index`. -/
def key (index : Nat) (field : String) : String := s!"installations[{index}].{field}"

def parseThreshold (key text : String) : Except Error Threshold := (Threshold.parse text).mapError (.threshold key text)

def validateAt (index : Nat) (i : Installation) : Except Error Unit := do
  if i.file = "" then throw (.missing (key index "file"))
  if i.password = "" then throw (.missing (key index "p12_password"))
  let _ ← parseThreshold (key index "renew_before") i.renewBefore

def validateFrom (index : Nat) : List Entry → Except Error Unit
  | [] => .ok ()
  | e :: rest => do
    validateAt index e.installation
    validateFrom (index + 1) rest

/-- The first thing that is wrong, if anything is. -/
def validate (s : Settings) : Except Error Unit := validateFrom 0 s.installations

/-! ## Relative paths -/

/-- `path` as seen from `base`, unless it is absolute or empty. -/
def resolvePath (base path : String) : String :=
  if Path.isAbsolute path ∨ path = "" then path else Path.join base path

def resolveSource (base : String) (s : PemSource) : PemSource :=
  { s with certificate := resolvePath base s.certificate, privateKey := s.privateKey.map (resolvePath base),
           chain := s.chain.map (resolvePath base) }

def resolveEntry (base : String) (e : Entry) : Entry :=
  { installation := { e.installation with file := resolvePath base e.installation.file }
    source := e.source.map (resolveSource base) }

/-- All paths as seen from `base`. -/
def resolve (base : String) (s : Settings) : Settings := ⟨s.installations.map (resolveEntry base)⟩

end Settings
end CertRotation
