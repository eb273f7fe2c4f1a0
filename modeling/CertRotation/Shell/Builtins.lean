import CertRotation.Shell.Expansion
import CertRotation.Shell.Utilities

/-!
# Built-in commands

Commands that change the shell which runs them: its variables, options, traps and working directory. Mistakes in the
special ones end the shell.
-/
namespace CertRotation.Shell

/-! ## What names stand for -/

def specialBuiltins : List String :=
  [":", ".", "break", "continue", "eval", "exec", "exit", "export", "local", "readonly", "return", "set", "shift", "times",
   "trap", "unset"]

def plainBuiltins : List String :=
  ["[", "alias", "bg", "cd", "command", "echo", "false", "fg", "getopts", "hash", "jobs", "kill", "printf", "pwd", "read",
   "test", "true", "type", "ulimit", "umask", "unalias", "wait"]

def keywords : List String :=
  ["!", "\x7b", "\x7d", "case", "do", "done", "elif", "else", "esac", "fi", "for", "if", "in", "then", "until", "while"]

def launchers : List String := ["sh", "dash", "bash", "env", "nohup", "nice", "timeout", "setsid", "xargs", "which"]

def programName (name : String) : String :=
  match Path.names name with
  | ["bin", n] => if Path.isAbsolute name then n else name
  | ["usr", "bin", n] => if Path.isAbsolute name then n else name
  | _ => name

def isProgram (name : String) : Bool := (utility? name).isSome || launchers.contains name

/-- Whether programs are looked for where they are. -/
def findsPrograms (m : Machine) : Bool :=
  (((m.bindings.lookup "PATH").getD "").splitOn ":").any fun place => place = "/bin" || place = "/usr/bin"

def programPath? (m : Machine) (name : String) : Option String :=
  if isProgram name && findsPrograms m then some ("/usr/bin/" ++ name) else none

def describe (args : List String) (m : Machine) : Machine :=
  args.foldl (fun m name =>
    if keywords.contains name then m.printLine s!"{name} is a shell keyword"
    else if specialBuiltins.contains name then m.printLine s!"{name} is a special shell builtin"
    else if (m.functions.lookup name).isSome then m.printLine s!"{name} is a shell function"
    else if plainBuiltins.contains name then m.printLine s!"{name} is a shell builtin"
    else
      match programPath? m name with
      | some path => m.printLine s!"{name} is {path}"
      | none => (m.printLine s!"{name}: not found").ended 127) (m.ended 0)

def locate (name : String) (m : Machine) : Machine :=
  if keywords.contains name || specialBuiltins.contains name || plainBuiltins.contains name ||
      (m.functions.lookup name).isSome then (m.printLine name).ended 0
  else
    match programPath? m name with
    | some path => (m.printLine path).ended 0
    | none => m.ended 127

/-! ## Numbers -/

def maxNumber : Nat := 0x7fffffff

def number? (s : String) : Option Nat :=
  let cs := s.toList.dropWhile isBlank
  (digits? (String.ofList (if cs.head? = some '+' then cs.drop 1 else cs))).filter (· ≤ maxNumber)

/-- Go on with the number that the first argument spells, or with another if there is none. -/
def withNumber (name : String) (args : List String) (missing : Nat) (f : Nat → Machine) (m : Machine) : Machine :=
  match args with
  | [] => f missing
  | text :: _ =>
    match number? text with
    | some n => f n
    | none => m.abort s!"{name}: Illegal number: {text}" 2

/-! ## Variables -/

/-- The name and the value of an argument such as `x=1`. -/
def splitAssignment (s : String) : String × Option String :=
  let name := s.toList.takeWhile (· ≠ '=')
  (String.ofList name, if name.length < s.length then some (String.ofList (s.toList.drop (name.length + 1))) else none)

def isName (s : String) : Bool := s.toList.head?.any isNameStart && s.toList.all isNameChar

/-- Mark variables, some of which are set first. -/
def mark (command : String) (f : String → Machine → Machine) (args : List String) (m : Machine) : Machine :=
  (splitOptions args).2.foldl (fun m a =>
    let (name, value) := splitAssignment a
    if m.isBroken then m
    else if !isName name then m.abort s!"{command}: {name}: bad variable name" 2
    else f name (match value with
      | some v => m.assign name v
      | none => m)) (m.ended 0)

/-- Variables that only the current function has. They keep their values until they are set. -/
def makeLocal (args : List String) (m : Machine) : Machine :=
  match m.hidden with
  | none => m.abort "local: not in a function" 2
  | some hidden =>
    let names := args.map fun a => (splitAssignment a).1
    let saved := names.map fun name => (name, m.bindings.lookup name)
    args.foldl (fun m a =>
      match splitAssignment a with
      | (name, some v) => m.assign name v
      | _ => m) ({ m with hidden := some (saved ++ hidden) }.ended 0)

def unsetNames (args : List String) (m : Machine) : Machine :=
  let (letters, names) := splitOptions args
  if letters.contains 'f' then { m with functions := m.functions.filter fun (n, _) => !names.contains n }.ended 0
  else
    names.foldl (fun m name =>
      if m.readOnly.contains name then m.abort s!"unset: {name}: is read only" 2
      else { m.unsetVariable name with exported := m.exported.filter (· ≠ name) }) (m.ended 0)

/-! ## Options -/

def optionNames : List (String × Char) :=
  [("errexit", 'e'), ("noglob", 'f'), ("ignoreeof", 'I'), ("interactive", 'i'), ("monitor", 'm'), ("noexec", 'n'),
   ("stdin", 's'), ("xtrace", 'x'), ("verbose", 'v'), ("vi", 'V'), ("emacs", 'E'), ("noclobber", 'C'), ("allexport", 'a'),
   ("notify", 'b'), ("nounset", 'u')]

def setFlag (isOn : Bool) (m : Machine) (c : Char) : Machine :=
  let others := m.flags.filter (· ≠ c)
  { m with flags := if isOn then others ++ [c] else others }

def switchOptions (extra : List Char) : List String → Machine → Except String (Machine × Bool × List String)
  | [], m => .ok (m, false, [])
  | "--" :: rest, m => .ok (m, true, rest)
  | "-" :: rest, m => .ok (m, false, rest)
  | a :: rest, m =>
    match a.toList with
    | sign :: letters =>
      if sign ≠ '-' ∧ sign ≠ '+' then .ok (m, false, a :: rest)
      else
        let known := fun (c : Char) => extra.contains c || optionNames.any (·.2 = c)
        let isOn := sign = '-'
        if letters = ['o'] then
          match rest with
          | name :: others =>
            match optionNames.lookup name with
            | some c => switchOptions extra others (setFlag isOn m c)
            | none => .error s!"Illegal option {a} {name}"
          | [] => .ok (m, false, [])
        else
          match letters.find? fun c => !known c with
          | some c => .error s!"Illegal option {sign}{c}"
          | none => switchOptions extra rest (letters.foldl (setFlag isOn) m)
    | [] => .ok (m, false, a :: rest)

def setOptions (args : List String) (m : Machine) : Machine :=
  match switchOptions [] args m with
  | .error e => m.abort s!"set: {e}" 2
  | .ok (m, isClosed, rest) => (if isClosed || rest ≠ [] then { m with parameters := rest } else m).ended 0

/-! ## Signals and traps -/

def signalNames : List String :=
  ["HUP", "INT", "QUIT", "ILL", "TRAP", "ABRT", "BUS", "FPE", "KILL", "USR1", "SEGV", "USR2", "PIPE", "ALRM", "TERM", "16",
   "CHLD", "CONT", "STOP", "TSTP", "TTIN", "TTOU", "URG", "XCPU", "XFSZ", "VTALRM", "PROF", "WINCH", "IO", "PWR", "SYS"]

def maxSignal : Nat := 64

/-- The number of a signal, which is given by its number or name; 0 stands for the end of the shell. -/
def signal? (text : String) : Option Nat :=
  match digits? text with
  | some n => if n ≤ maxSignal then some n else none
  | none =>
    if text.toUpper = "EXIT" then some 0
    else (signalNames.findIdx? (· = text.toUpper)).map (· + 1)

def signalName (n : Nat) : String := if n = 0 then "EXIT" else signalNames.getD (n - 1) (toString n)

/-- Whether a signal ends a process that does not care for it. -/
def isFatal (n : Nat) : Bool := n ≠ 0 && !([17, 18, 23, 28].contains n)

def isUntrappable (n : Nat) : Bool := n = 9 || n = 19

/-- What is said when a signal has ended a process. -/
def signalText (n : Nat) : String :=
  (["Hangup", "", "Quit", "Illegal instruction", "Trace/breakpoint trap", "Aborted", "Bus error", "Floating point exception",
    "Killed", "User defined signal 1", "Segmentation fault", "User defined signal 2", "", "Alarm clock", "Terminated"]).getD
    (n - 1) ""

def singleQuoted (s : String) : String :=
  "'" ++ String.ofList (s.toList.flatMap fun c => if c = '\'' then "'\"'\"'".toList else [c]) ++ "'"

def setTraps (args : List String) (m : Machine) : Machine :=
  let args := if args.head? = some "--" then args.drop 1 else args
  match args with
  | [] =>
    ((List.range (maxSignal + 1)).foldl (fun m n =>
      match m.traps.lookup (signalName n) with
      | some text => m.printLine s!"trap -- {singleQuoted text} {signalName n}"
      | none => m) m).ended 0
  | first :: rest =>
    let isReset := rest = [] || (digits? first).any (· ≤ maxSignal) || first = "-"
    let names := if rest = [] ∨ (digits? first).any (· ≤ maxSignal) then args else rest
    names.foldl (fun m name =>
      if m.status ≠ 0 then m
      else
        match signal? name with
        | none => m.complain s!"trap: {name}: bad trap" 1
        | some n =>
          let others := m.traps.filter (·.1 ≠ signalName n)
          { m with traps := if isReset then others else (signalName n, first) :: others }) (m.ended 0)

/-! ## Reading lines -/

/-- The first line of the input with what backslashes protect marked, whether it has an end, and the rest. -/
def lineFrom (isRaw : Bool) : Bytes → List (UInt8 × Bool) × Bool × Bytes
  | [] => ([], false, [])
  | 10 :: rest => ([], true, rest)
  | 92 :: x :: rest =>
    if isRaw then
      let (l, isWhole, after) := lineFrom isRaw (x :: rest)
      ((92, false) :: l, isWhole, after)
    else
      let (l, isWhole, after) := lineFrom isRaw rest
      (if x = 10 then l else (x, true) :: l, isWhole, after)
  | x :: rest =>
    let (l, isWhole, after) := lineFrom isRaw rest
    ((x, false) :: l, isWhole, after)

/-- The texts for so many variables, the last of which gets all that is left. -/
def wordsFor (separators : List Char) : (count : Nat) → List Mark → List (List Mark)
  | 0, _ => []
  | count + 1, cs =>
    let isSpace := fun (x : Mark) => !x.2 && isBlank x.1 && separators.contains x.1
    let isEnd := fun (x : Mark) => !x.2 && separators.contains x.1
    let start := cs.dropWhile isSpace
    if count = 0 then
      let whole := (start.reverse.dropWhile isSpace).reverse
      let isOne := whole.getLast?.any isEnd && (whole.filter isEnd).length = 1
      [if isOne then whole.dropLast else whole]
    else
      let field := start.takeWhile fun x => !isEnd x
      let rest := (start.drop field.length).dropWhile isSpace
      field :: wordsFor separators count (if rest.head?.any isEnd then rest.drop 1 else rest)

def marksOf (l : List (UInt8 × Bool)) : List Mark :=
  match l with
  | [] => []
  | _ =>
    let text := (Utf8.decodeLossy (l.map (·.1))).toList
    if text.length = l.length then text.zip (l.map (·.2)) else text.map (·, false)

def readWords (args : List String) (m : Machine) : Machine :=
  let (_, args) := optionValue 'p' args
  let (letters, names) := splitOptions args
  match names.find? fun n => !isName n with
  | some n => m.refuse s!"read: {n}: bad variable name" 2
  | none =>
    if names = [] then m.refuse "read: arg count" 2
    else
      let (l, isWhole, rest) := lineFrom (letters.contains 'r') m.input
      let texts := wordsFor m.separators names.length (marksOf l)
      let done := (names.zip texts).foldl (fun m (name, text) => m.assign name (textOf text)) { m with input := rest }
      if done.isBroken then done else done.ended (if isWhole then 0 else 1)

/-! ## The rest -/

def changeDirectory (args : List String) (m : Machine) : Machine :=
  let path := args.headD "/"
  if path = "" then m.ended 0
  else
    match m.files.directoryAt (m.files.start path) (Path.names path) with
    | .ok place => { m with files := { m.files with working := place } }.ended 0
    | .error _ => m.refuse s!"cd: can't cd to {path}" 2

def shiftParameters (args : List String) (m : Machine) : Machine :=
  withNumber "shift" args 1 (fun n =>
    if m.parameters.length < n then m.abort "shift: can't shift that many" 2
    else { m with parameters := m.parameters.drop n }.ended 0) m

def maskText (n : Nat) : String :=
  let digits := octalText n
  String.ofList (List.replicate (4 - digits.length) '0') ++ digits

def setMask (args : List String) (m : Machine) : Machine :=
  match args with
  | [] => (m.printLine (maskText m.mask)).ended 0
  | text :: _ =>
    if text.toList.all isOctal then { m with mask := octalValue text.toList % 0o1000 }.ended 0
    else if text.toList.all Char.isDigit then m.refuse s!"umask: Illegal number: {text}" 2
    else m.ended 0

def waitFor (args : List String) (m : Machine) : Machine :=
  match args with
  | [] => m.ended 0
  | text :: _ => m.ended (if text = backgroundNumber then m.background.getD 127 else 127)

/-- Print the signals, or the one that ended a process with a status. -/
def listSignals (args : List String) (m : Machine) : Machine :=
  match args with
  | [] => ("0" :: signalNames).foldl Machine.printLine (m.ended 0)
  | text :: _ =>
    match number? text with
    | none => m.refuse s!"kill: Illegal number: {text}" 2
    | some n =>
      let s := if 128 < n then n - 128 else n
      if 0 < s ∧ s ≤ maxSignal then (m.printLine (signalName s)).ended 0
      else m.refuse s!"kill: invalid signal number or exit status: {text}" 2

/-- Commands of the shell itself that run no others and do not change the flow. -/
def builtins : List (String × Utility) :=
  [("cd", changeDirectory), ("unset", unsetNames), ("shift", shiftParameters), ("set", setOptions), ("read", readWords),
   ("wait", waitFor), ("trap", setTraps), ("umask", setMask), ("type", describe), ("local", makeLocal),
   (":", fun _ m => m.ended 0), ("hash", fun _ m => m.ended 0), ("jobs", fun _ m => m.ended 0),
   ("ulimit", fun _ m => m.ended 0), ("alias", fun _ m => m.ended 0), ("getopts", fun _ m => m.ended 1),
   ("fg", fun _ m => m.refuse "fg: No current job" 2), ("bg", fun _ m => m.refuse "bg: No current job" 2),
   ("times", fun _ m => (m.printLine "0m0.000000s 0m0.000000s\n0m0.000000s 0m0.000000s").ended 0),
   ("export", mark "export" fun name m => { m with exported := name :: m.exported }),
   ("readonly", mark "readonly" fun name m => { m with readOnly := name :: m.readOnly })]

end CertRotation.Shell
