/-!
# Parameters of the command line

The verbs and the parameters that each of them takes. Flags stand alone, the other parameters take one value.
-/
namespace CertRotation.CommandLine

inductive Verb where
  | check
  | backup
  | install
  | inspect
  | run
  deriving DecidableEq, Repr

namespace Verb

def all : List Verb := [check, backup, install, inspect, run]

def name : Verb → String
  | check => "check"
  | backup => "backup"
  | install => "install"
  | inspect => "inspect"
  | run => "run"

def ofName? (s : String) : Option Verb := all.find? fun v => v.name = s

end Verb

inductive Kind where
  | flag
  | help
  | version
  | text
  /-- A text that must not be empty. -/
  | path
  deriving DecidableEq, Repr

def Kind.takesValue : Kind → Bool
  | text => true
  | path => true
  | _ => false

structure Parameter where
  long : String
  short : Option Char := none
  kind : Kind := .flag
  /-- The variable that gives a value if the command line does not. -/
  environment : Option String := none
  isRequired : Bool := false
  deriving DecidableEq, Repr

def common : List Parameter :=
  [{ long := "verbose", short := some 'v' }, { long := "no-color" }, { long := "help", short := some 'h', kind := .help },
   { long := "version", short := some 'V', kind := .version }]

def file : Parameter := { long := "file", short := some 'f', kind := .path, isRequired := true }

def password : Parameter := { long := "password", short := some 'p', kind := .text, environment := some "P12_PASSWORD" }

def renewBefore : Parameter := { long := "renew-before", kind := .text }

def json : Parameter := { long := "json" }

def force : Parameter := { long := "force" }

def Verb.parameters : Verb → List Parameter
  | check => [file, password, renewBefore, json]
  | backup => [file]
  | install =>
    [file, password, { long := "cert", kind := .path, isRequired := true }, { long := "key", kind := .path },
     { long := "chain", kind := .path }, { long := "key-password", kind := .text, environment := some "P12_KEY_PASSWORD" },
     renewBefore, force, { long := "after-action", kind := .text }, { long := "install-validation", kind := .text }]
  | inspect => [file, password, json]
  | run => [{ long := "config", short := some 'c', kind := .path }, force]

end CertRotation.CommandLine
