/-!
# Commands

What can be asked for on the command line.
-/
namespace CertRotation

structure InstallArguments where
  file : String
  password : Option String := none
  certificate : String
  key : Option String := none
  chain : Option String := none
  keyPassword : Option String := none
  renewBefore : String := "30d"
  force : Bool := false
  afterAction : Option String := none
  validation : Option String := none
  deriving DecidableEq, Repr

inductive Command where
  /-- Tell whether the bundle has to be installed. -/
  | check (file : String) (password : Option String) (renewBefore : String) (json : Bool)
  | backup (file : String)
  /-- Run a cycle for one target. -/
  | install (a : InstallArguments)
  /-- Show what a bundle holds. -/
  | inspect (file : String) (password : Option String) (json : Bool)
  /-- Run a cycle for each installation of the settings. -/
  | run (config : Option String) (force : Bool)
  deriving DecidableEq, Repr

structure Invocation where
  command : Command
  verbose : Bool := false
  noColor : Bool := false
  deriving DecidableEq, Repr

end CertRotation
