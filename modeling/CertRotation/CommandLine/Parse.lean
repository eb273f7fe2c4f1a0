import CertRotation.CommandLine.Command
import CertRotation.CommandLine.Parameter

/-!
# Reading the command line

Arguments are read from left to right. A parameter may be given once; its value follows in the next argument, after an
equals sign or, for short names, at once. A value is settled only when the next parameter comes or the arguments end,
so that an unknown argument is found before a missing value.
-/
namespace CertRotation.CommandLine

inductive UsageError where
  | unknownArgument
  | unknownVerb
  | missingVerb
  | missingParameter
  /-- A value is missing, or empty where it must not be. -/
  | invalidValue
  | givenTwice
  /-- A flag was given a value. -/
  | needlessValue
  deriving DecidableEq, Repr

/-- Why the arguments are no invocation. -/
inductive Stop where
  | help
  | version (v : Option Verb)
  /-- There were no arguments at all. -/
  | nothing
  | usage (e : UsageError)
  deriving DecidableEq, Repr

/-- What has been read. -/
structure Given where
  /-- Long names with their values; those of flags are empty. -/
  values : List (String × String) := []
  /-- A parameter that takes a value, and that value once it has been read. -/
  pending : Option (Parameter × Option String) := none

namespace Given

def value? (g : Given) (long : String) : Option String := g.values.lookup long

def isSet (g : Given) (long : String) : Bool := (g.value? long).isSome

def insert (g : Given) (long value : String) : Given := { g with values := (long, value) :: g.values }

def give (g : Given) (p : Parameter) (value : Option String) : Except Stop Given :=
  match value with
  | none => .error (.usage .invalidValue)
  | some s =>
    if g.isSet p.long then .error (.usage .givenTwice)
    else if p.kind = .path ∧ s = "" then .error (.usage .invalidValue)
    else .ok (g.insert p.long s)

def settle (g : Given) : Except Stop Given :=
  match g.pending with
  | none => .ok g
  | some (p, value) => { g with pending := none }.give p value

def raise (verb : Option Verb) (g : Given) (p : Parameter) : Except Stop Given := do
  let g ← g.settle
  match p.kind with
  | .help => throw .help
  | .version => throw (.version verb)
  | _ => if g.isSet p.long then throw (.usage .givenTwice) else pure (g.insert p.long "")

/-- A parameter that takes a value, which may have come along. -/
def await (g : Given) (p : Parameter) (attached : Option String) : Except Stop Given := do
  let g ← g.settle
  match attached with
  | some s => g.give p (some s)
  | none => pure { g with pending := some (p, none) }

/-! ## Arguments -/

/-- An argument with a long name, after the dashes. -/
def readLong (verb : Option Verb) (ps : List Parameter) (g : Given) (arg : List Char) : Except Stop Given :=
  let name := String.ofList (arg.takeWhile (· ≠ '='))
  let attached := match arg.dropWhile (· ≠ '=') with
    | _ :: value => some (String.ofList value)
    | [] => none
  match ps.find? fun p => p.long = name, attached with
  | none, _ => .error (.usage .unknownArgument)
  | some p, _ =>
    if p.kind.takesValue then g.await p attached
    else if attached.isSome then .error (.usage .needlessValue)
    else g.raise verb p

/-- An argument of short names, after the dash. -/
def readShort (verb : Option Verb) (ps : List Parameter) (g : Given) : List Char → Except Stop Given
  | [] => .ok g
  | c :: rest =>
    match ps.find? fun p => p.short = some c with
    | none => .error (.usage .unknownArgument)
    | some p =>
      if p.kind.takesValue then
        g.await p (match rest with
          | [] => none
          | '=' :: value => some (String.ofList value)
          | value => some (String.ofList value))
      else do
        let g ← g.raise verb p
        g.readShort verb ps rest

/-- The value that the pending parameter waits for, or something that does not belong anywhere. -/
def readPlain (g : Given) (arg : String) : Except Stop Given :=
  match g.pending with
  | some (p, none) => .ok { g with pending := some (p, some arg) }
  | _ => .error (.usage .unknownArgument)

def read (verb : Option Verb) (ps : List Parameter) (g : Given) (arg : String) : Except Stop Given :=
  match arg.toList with
  | '-' :: '-' :: name => g.readLong verb ps name
  | '-' :: c :: names => g.readShort verb ps (c :: names)
  | _ => g.readPlain arg

/-- The arguments after a verb. Nothing may follow two dashes. -/
def readAll (verb : Verb) (ps : List Parameter) (g : Given) : List String → Except Stop Given
  | [] => g.settle
  | ["--"] => g.settle
  | "--" :: _ => .error (.usage .unknownArgument)
  | arg :: rest => do
    let g ← g.read (some verb) ps arg
    g.readAll verb ps rest

/-- Values from the environment where none was given. -/
def withVariables (lookup : String → Option String) (ps : List Parameter) (g : Given) : Given :=
  ps.foldl (fun g p =>
    match p.environment.bind lookup with
    | some s => if g.isSet p.long then g else g.insert p.long s
    | none => g) g

end Given

/-! ## Commands -/

def Verb.command (v : Verb) (g : Given) : Command :=
  let text := fun (long : String) => (g.value? long).getD ""
  let renewBefore := (g.value? "renew-before").getD "30d"
  match v with
  | check => .check (text "file") (g.value? "password") renewBefore (g.isSet "json")
  | backup => .backup (text "file")
  | install => .install ⟨text "file", g.value? "password", text "cert", g.value? "key", g.value? "chain",
      g.value? "key-password", renewBefore, g.isSet "force", g.value? "after-action", g.value? "install-validation"⟩
  | inspect => .inspect (text "file") (g.value? "password") (g.isSet "json")
  | run => .run (g.value? "config") (g.isSet "force")

def parseVerb (lookup : String → Option String) (v : Verb) (args : List String) : Except Stop (Command × Given) := do
  let g ← Given.readAll v (v.parameters ++ common) {} args
  let g := g.withVariables lookup v.parameters
  if v.parameters.any fun p => p.isRequired && !g.isSet p.long then throw (.usage .missingParameter)
  pure (v.command g, g)

/-- The verb `help` takes the name of at most one other. -/
def parseHelp : List String → Stop
  | [] => .help
  | [name] => if name = "help" ∨ (Verb.ofName? name).isSome then .help else .usage .unknownVerb
  | _ => .usage .unknownVerb

/-- Read arguments up to the verb and then what follows it. -/
def parseFrom (lookup : String → Option String) (g : Given) : List String → Except Stop Invocation
  | [] => .error (if g.values = [] then .nothing else .usage .missingVerb)
  | "help" :: rest => .error (parseHelp rest)
  | ["--"] => .error (if g.values = [] then .nothing else .usage .missingVerb)
  | "--" :: name :: _ =>
    .error (.usage (if name = "help" ∨ (Verb.ofName? name).isSome then .unknownArgument else .unknownVerb))
  | arg :: rest =>
    match Verb.ofName? arg with
    | some v => do
      let (command, inner) ← parseVerb lookup v rest
      let isSet := fun (long : String) => g.isSet long || inner.isSet long
      pure ⟨command, isSet "verbose", isSet "no-color"⟩
    | none =>
      match arg.toList with
      | '-' :: _ :: _ => do
        let g ← g.read none common arg
        parseFrom lookup g rest
      | _ => .error (.usage .unknownVerb)

/-- The invocation that arguments ask for; `lookup` finds the values of variables. -/
def parse (lookup : String → Option String) (args : List String) : Except Stop Invocation := parseFrom lookup {} args

/-! ## Names and versions -/

def programName : String := "p12-installer"

def programVersion : String := "0.1.0"

def versionText : Option Verb → String
  | none => s!"{programName} {programVersion}"
  | some v => s!"{programName}-{v.name} {programVersion}"

/-! ## Usage -/

def UsageError.message : UsageError → String
  | unknownArgument => "unexpected argument found"
  | unknownVerb => "unrecognized subcommand"
  | missingVerb => "a subcommand is required but one was not provided"
  | missingParameter => "the following required arguments were not provided"
  | invalidValue => "a value is required but none was supplied"
  | givenTwice => "an argument cannot be used multiple times"
  | needlessValue => "unexpected value for a flag"

def Parameter.usage (p : Parameter) : String :=
  let name := match p.short with
    | some c => s!"-{c}, --{p.long}"
    | none => s!"--{p.long}"
  if p.kind.takesValue then s!"  {name} <{p.long}>" else s!"  {name}"

def usageLines : List String :=
  s!"Usage: {programName} <COMMAND> [OPTIONS]" ::
    Verb.all.flatMap (fun v => ["", v.name] ++ v.parameters.map Parameter.usage) ++ ["", "everywhere"] ++
    common.map Parameter.usage

end CertRotation.CommandLine
