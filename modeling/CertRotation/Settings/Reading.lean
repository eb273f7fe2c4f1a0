import CertRotation.Settings.Basic
import CertRotation.Toml.Document

/-!
# Reading settings

Settings are a TOML document. Keys that mean nothing are ignored; `installations` is an array of tables, each with the
fields of an installation and perhaps a table `source`.
-/
namespace CertRotation.Settings
open Toml (Value Entries)

def text? : Value → Option String
  | .string s => some s
  | _ => none

def required? (es : Entries) (name : String) : Option String := (es.lookup name).bind text?

/-- A text that may be missing but must not be anything else. -/
def optional? (es : Entries) (name : String) : Option (Option String) :=
  match es.lookup name with
  | none => some none
  | some v => (text? v).map some

/-- A source, as a table or as an array of its fields in order. -/
def source? : Value → Option PemSource
  | .table _ es => do
    pure ⟨← required? es "certificate", ← optional? es "private_key", ← optional? es "chain", ← optional? es "key_password"⟩
  | v => do
    match ← (← v.elements?).take 4 |>.mapM text? with
    | certificate :: rest => pure ⟨certificate, rest[0]?, rest[1]?, rest[2]?⟩
    | [] => none

def entry? : Value → Option Entry
  | .table _ es => do
    let i : Installation :=
      ⟨← required? es "file", (← optional? es "p12_password").getD "", (← optional? es "renew_before").getD "30d",
        ← optional? es "after_action", ← optional? es "install_validation"⟩
    match es.lookup "source" with
    | none => pure ⟨i, none⟩
    | some v => pure ⟨i, some (← source? v)⟩
  | _ => none

def ofEntries? (es : Entries) : Option Settings :=
  match es.lookup "installations" with
  | none => some ⟨[]⟩
  | some v => do pure ⟨← (← v.elements?).mapM entry?⟩

def parse (text : String) : Except Error Settings :=
  match (Toml.parse? text).bind ofEntries? with
  | some s => .ok s
  | none => .error .malformed

/-- The settings in the file at `path`; relative paths in it start from its directory. Whatever keeps the file from being
read as text, it counts as not found. -/
def loadFile (t : FileTree) (path : String) : Except Error Settings :=
  match t.readText path with
  | .error _ => .error (.notFound path)
  | .ok text => do
    let s ← parse text
    match Path.parent? path with
    | some base => pure (s.resolve base)
    | none => pure s

/-- Where settings are looked for if no path is given. -/
def defaultPath : String := "config/installer.toml"

/-- The settings of a run: those at `path`, or those at the default path if there is something. Unless they are valid
nothing is run. -/
def load (t : FileTree) (path : Option String) : Except Error Settings := do
  let s ← match path with
    | some p => loadFile t p
    | none => if t.exists? defaultPath then loadFile t defaultPath else pure ⟨[]⟩
  s.validate
  pure s

end CertRotation.Settings
