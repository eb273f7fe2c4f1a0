import CertRotation.Rotation.Instruction
import CertRotation.Shell.Builtins

/-!
# Running shell scripts

`run` runs a command with a bound on the number of nested and repeated steps. `Shell.runner` is the runner that hands
instructions to a shell, and to other programs as well.
-/
namespace CertRotation.Shell

/-- How a command leaves what surrounds it. -/
inductive Flow where
  | next
  /-- Leave so many loops. -/
  | leave (levels : Nat)
  /-- Leave loops but the last, which goes on. -/
  | again (levels : Nat)
  | returned
  | exited
  | killed (signal : Nat)
  deriving DecidableEq, Repr

/-! ## Redirections -/

def Piece.inQuotes : Piece → Piece
  | plain c => quoted [c]
  | quoted s => quoted s
  | parameter t _ => parameter t true
  | output s _ => output s true
  | arithmetic e _ => arithmetic e true

def openOutput (m : Machine) (sign path : String) : Except Files.Fault (Sink × Machine) :=
  match path with
  | "/dev/null" => .ok (.discard, m)
  | "/dev/stdout" => .ok ((m.sinks.lookup 1).getD .discard, m)
  | "/dev/stderr" => .ok ((m.sinks.lookup 2).getD .discard, m)
  | _ => do
    let (place, m) ← m.openFile path
    pure (.file place, if sign = ">>" then m else m.take (.write place []))

/-- Carry out redirections, or say why one is impossible. -/
def redirect (sub : Substitution) : List Redirection → Machine → Except Machine Machine
  | [], m => .ok m
  | r :: rest, m =>
    let (path, m) := expandText sub m (r.target.map Piece.inQuotes)
    if m.isBroken then .error m
    else if r.sign = "<<" then redirect sub rest { m with input := Bytes.ofString path }
    else if r.sign = ">&" ∨ r.sign = "<&" then
      if path = "-" then redirect sub rest { m with sinks := m.sinks.filter (·.1 ≠ r.stream) }
      else if r.sign = "<&" then redirect sub rest m
      else
        match (digits? path).bind fun n => m.sinks.lookup n with
        | some sink => redirect sub rest (m.setSink r.stream sink)
        | none => .error (m.refuse s!"{path}: Bad file descriptor" 2)
    else if r.sign = "<" ∨ r.sign = "<>" then
      match contentsOf m path with
      | .ok b => redirect sub rest (if r.stream = 0 then { m with input := b } else m)
      | .error .notFound => .error (m.refuse s!"cannot open {path}: No such file" 2)
      | .error .isADirectory => redirect sub rest { m with input := [] }
      | .error e => .error (m.refuse s!"cannot open {path}: {faultText e}" 2)
    else
      match openOutput m r.sign path with
      | .ok (sink, m) => redirect sub rest (m.setSink r.stream sink)
      | .error .notFound => .error (m.refuse s!"cannot create {path}: Directory nonexistent" 2)
      | .error e => .error (m.refuse s!"cannot create {path}: {faultText e}" 2)

/-! ## Signals -/

/-- The signal and the processes of a call of `kill`. -/
def killArguments : List String → Except String (Nat × List String)
  | "-s" :: name :: rest =>
    match signal? name with
    | some n => .ok (n, rest)
    | none => .error s!"invalid signal number or name: {name}"
  | a :: rest =>
    match a.toList with
    | '-' :: c :: cs =>
      match signal? (String.ofList (c :: cs)) with
      | some n => .ok (n, rest)
      | none => .error s!"Illegal option -{c}"
    | _ => .ok (15, a :: rest)
  | [] => .ok (15, [])

/-- Look for the processes that a signal is for: whether the shell is among them. -/
def findProcesses : List String → Machine → Bool × Machine
  | [], m => (false, m)
  | p :: rest, m =>
    if p = shellNumber then (true, (findProcesses rest m).2)
    else if p = backgroundNumber then findProcesses rest m
    else if p.toList.head? = some '%' then (false, m.refuse s!"kill: No such job: {p}" 2)
    else if (digits? p).isSome then findProcesses rest (m.refuse "kill: No such process\n" 1)
    else (false, m.refuse s!"kill: Illegal number: {p}" 2)

def killUsage : String := "kill: Usage: kill [-s sigspec | -signum | -sigspec] [pid | job]... or\nkill -l [exitstatus]"

/-! ## Processes -/

/-- How a process of its own ends for the shell that started it. -/
def Flow.contained : Flow → Flow
  | killed s => killed s
  | _ => next

/-- The machine after a process of its own, which leaves only its status and what it has written. -/
def Machine.resume (m : Machine) (child : Machine) : Machine :=
  { m with files := { child.files with working := m.files.working }, steps := child.steps, buffers := child.buffers
           status := child.status % 256 }

/-- The machine after another shell, which may have been ended by a signal. -/
def Machine.rejoin (m : Machine) (f : Flow) (child : Machine) : Machine :=
  match f with
  | .killed s =>
    let text := signalText s
    let m := m.resume child
    if text = "" then m.ended (128 + s) else m.complain text (128 + s)
  | _ => m.resume child

def Machine.captured (m : Machine) : Machine :=
  { m with buffers := m.buffers ++ [[]] }.setSink 1 (.buffer m.buffers.length)

def Machine.released (m : Machine) : Machine := { m with buffers := m.buffers.dropLast }

/-- A process of its own that goes on as this shell does. -/
def Machine.forked (m : Machine) : Machine := { m with traps := m.traps.filter (·.2 = "") }

/-- Another shell, which gets to see what is exported. -/
def Machine.newShell (m : Machine) (name : String) : Machine :=
  let fresh : Machine := { files := m.files }
  { files := m.files, steps := m.steps, buffers := m.buffers, input := m.input, sinks := m.sinks, mask := m.mask
    bindings := m.bindings.filter (fun (n, _) => m.exported.contains n) ++ fresh.bindings
    exported := m.exported, traps := m.traps.filter (·.2 = ""), name }

def isShell (name : String) : Bool := ["sh", "dash", "bash"].contains (programName name)

/-- The machine and the script that the arguments of a shell ask for, or the machine after a complaint. -/
def shellStart (name : String) (args : List String) (m : Machine) : Except Machine (Machine × String) :=
  match switchOptions ['c'] args (m.newShell name) with
  | .error e => .error (m.complain s!"{name}: 0: {e}" 2)
  | .ok (ready, _, rest) =>
    let start := { ready with flags := ready.flags.filter (· ≠ 'c') }
    if ready.flags.contains 'c' then
      match rest with
      | [] => .error (m.complain s!"{name}: 0: -c requires an argument" 2)
      | script :: more => .ok ({ start with name := more.headD name, parameters := more.drop 1 }, script)
    else
      match rest, ready.flags.contains 's' with
      | file :: more, false =>
        match m.files.read file with
        | .ok b => .ok ({ start with name := file, parameters := more }, Utf8.decodeLossy b)
        | .error .isADirectory => .ok (start, "")
        | .error _ => .error (m.complain s!"{name}: 0: cannot open {file}: No such file" 2)
      | _, _ => .ok ({ start with parameters := rest, input := [] }, Utf8.decodeLossy m.input)

/-- Paths outside that are there but are no programs. -/
def isOutside (path : String) : Bool :=
  ["/", "/bin", "/dev", "/dev/null", "/etc", "/etc/passwd", "/home", "/root", "/tmp", "/usr", "/usr/bin", "/var"].contains path

def executableAt (m : Machine) (path : String) : Except Files.Fault String :=
  if isOutside path then .error .denied
  else
    match m.files.stat path with
    | .ok (_, .file b mode) => if mode &&& 0o111 = 0 then .error .denied else .ok (Utf8.decodeLossy b)
    | .ok _ => .error .denied
    | .error e => .error e

/-- The program that the first line of a script names, and its argument. -/
def interpreter? (text : String) : Option (List String) :=
  match text.toList with
  | '#' :: '!' :: rest => some (((String.ofList (rest.takeWhile (· ≠ '\n'))).splitOn " ").filter (· ≠ ""))
  | _ => none

def isPath (name : String) : Bool := name.toList.contains '/'

def canRun (m : Machine) (name : String) : Except Files.Fault Unit :=
  if isProgram (programName name) && (isPath name || findsPrograms m) then .ok ()
  else if isPath name then (executableAt m name).map fun _ => ()
  else .error .notFound

/-! ## Commands -/

/-- What goes on after a loop body: whether the loop does, and how the loop is left if not. -/
def afterBody : Flow → Option Flow
  | .next => none
  | .again n => if n ≤ 1 then none else some (.again (n - 1))
  | .leave n => some (if n ≤ 1 then .next else .leave (n - 1))
  | f => some f

/-- End the shell if a command failed that must not. -/
def settled (r : Flow × Machine) : Flow × Machine :=
  match r with
  | (.next, m) => (if m.status ≠ 0 ∧ m.flags.contains 'e' ∧ !m.isTested then .exited else .next, m)
  | _ => r

def leaveLoops (name : String) (f : Nat → Flow) (args : List String) (m : Machine) : Flow × Machine :=
  match args.head?, (args.head?.map number?).getD (some 1) with
  | some text, none => (.exited, m.refuse s!"{name}: Illegal number: {text}" 2)
  | some text, some 0 => (.exited, m.refuse s!"{name}: Illegal number: {text}" 2)
  | _, n => if m.loops = 0 then (.next, m.ended 0) else (f (min (n.getD 1) m.loops), m.ended 0)

/-- Leave with the status that is asked for, or with that of the last command. -/
def leaveWith (f : Flow) (name : String) (args : List String) (m : Machine) : Flow × Machine :=
  match args with
  | [] => (f, m)
  | text :: _ =>
    match number? text with
    | some n => (f, m.ended n)
    | none => (.exited, m.refuse s!"{name}: Illegal number: {text}" 2)

/-- Whether one time is shorter than another; both are written in seconds. -/
def isShorter (a b : String) : Bool :=
  let hundredths := fun (s : String) =>
    let parts := s.splitOn "."
    let fraction := (((parts.drop 1).headD "") ++ "00").toList.take 2
    100 * ((parts.headD "").toNat?.getD 0) + ((String.ofList fraction).toNat?.getD 0)
  hundredths a < hundredths b

def isOutput : Piece → Bool
  | .output .. => true
  | _ => false

mutual

def run : (fuel : Nat) → Command → Machine → Flow × Machine
  | 0, _, m => (.exited, m.ended 1)
  | fuel + 1, c, m =>
    match c with
    | .skip => (.next, m)
    | .simple line assignments words => settled (runSimple fuel assignments words [] { m with line })
    | .redirected (.simple line assignments words) rs => settled (runSimple fuel assignments words rs { m with line })
    | .redirected body rs =>
      match redirect (substitution fuel) rs m with
      | .error failed => (if failed.isBroken then .exited else .next, { failed with sinks := m.sinks, input := m.input })
      | .ok ready =>
        let (f, done) := run fuel body ready
        (f, { done with sinks := m.sinks, input := if rs.any fun r => r.stream = 0 then m.input else done.input })
    | .pipe a b =>
      let (f, left) := conclude fuel (run fuel a m.forked.captured)
      let piped := left.printed m.buffers.length
      let m := m.resume left.released
      if f.contained ≠ .next then (f, m)
      else
        let (g, right) := conclude fuel (run fuel b { m.forked with input := piped })
        settled (g.contained, m.resume right)
    | .negated a =>
      let (f, m) := runTested fuel a m
      (f, if f = .next then m.ended (if m.status = 0 then 1 else 0) else m)
    | .both a b =>
      let (f, m) := runTested fuel a m
      if f = .next ∧ m.status = 0 then run fuel b m else (f, m)
    | .either a b =>
      let (f, m) := runTested fuel a m
      if f = .next ∧ m.status ≠ 0 then run fuel b m else (f, m)
    | .sequence a b =>
      let (f, m) := run fuel a m
      if f = .next then run fuel b m else (f, m)
    | .background a =>
      let (f, child) := conclude fuel (run fuel a { m.forked with input := [] })
      (f.contained, { (m.resume child).ended 0 with background := some (child.status % 256) })
    | .subshell a =>
      let (f, child) := conclude fuel (run fuel a m.forked)
      settled (f.contained, { m.resume child with input := child.input })
    | .choice t yes no =>
      let (f, m) := runTested fuel t m
      if f ≠ .next then (f, m)
      else if m.status = 0 then run fuel yes m
      else run fuel no (m.ended 0)
    | .loop wanted t body =>
      let (f, done) := runLoop fuel wanted t body 0 { m with loops := m.loops + 1 }
      (f, { done with loops := m.loops })
    | .each name words body =>
      let (items, m) := match words with
        | some ws => expandWords (substitution fuel) m ws
        | none => (m.parameters, m)
      if m.isBroken then (.exited, m)
      else
        let (f, done) := runEach fuel name items body { m.ended 0 with loops := m.loops + 1 }
        (f, { done with loops := m.loops })
    | .select subject branches =>
      let (s, m) := expandText (substitution fuel) m (subject.map Piece.inQuotes)
      if m.isBroken then (.exited, m) else runBranch fuel s.toList branches m
    | .define name body => (.next, { m with functions := (name, body) :: m.functions }.ended 0)

def runTested : (fuel : Nat) → Command → Machine → Flow × Machine
  | 0, _, m => (.exited, m.ended 1)
  | fuel + 1, c, m =>
    let (f, done) := run fuel c { m with isTested := true }
    (f, { done with isTested := m.isTested })

/-- The output of a script that runs in a process of its own. -/
def substitution : (fuel : Nat) → Substitution
  | 0 => fun _ m => ([], m.ended 1)
  | fuel + 1 => fun script m =>
    match parse script with
    | .error e => ([], m.abort s!"Syntax error: {e}" 2)
    | .ok c =>
      let (_, child) := conclude fuel (run fuel c { m.forked.captured with isTested := false })
      let status := if c matches .skip then 0 else child.status
      (child.printed m.buffers.length, m.resume (child.released.ended status))

/-- Run `body` while the status of the test is as wanted; `last` is the status of the last round. -/
def runLoop : (fuel : Nat) → Bool → Command → Command → (last : Nat) → Machine → Flow × Machine
  | 0, _, _, _, _, m => (.exited, m.ended 1)
  | fuel + 1, wanted, t, body, last, m =>
    let (f, m) := runTested fuel t m
    match afterBody f with
    | some out => (out, m)
    | none =>
      if (m.status == 0) != wanted then (.next, m.ended last)
      else
        let (g, m) := run fuel body m
        match afterBody g with
        | some out => (out, m)
        | none => runLoop fuel wanted t body m.status m

def runEach : (fuel : Nat) → String → List String → Command → Machine → Flow × Machine
  | 0, _, _, _, m => (.exited, m.ended 1)
  | _, _, [], _, m => (.next, m)
  | fuel + 1, name, item :: rest, body, m =>
    let (g, m) := run fuel body (m.assign name item)
    match afterBody g with
    | some out => (out, m)
    | none => runEach fuel name rest body m

def runBranch : (fuel : Nat) → List Char → List (List Word × Command) → Machine → Flow × Machine
  | 0, _, _, m => (.exited, m.ended 1)
  | _, _, [], m => (.next, m.ended 0)
  | fuel + 1, s, (ws, body) :: rest, m =>
    let (found, m) := ws.foldl (fun (found, m) w =>
      let (p, m) := expandMarks (substitution fuel) m w
      (found || matchesPattern p s, m)) (false, m)
    if m.isBroken then (.exited, m)
    else if found then run fuel body (m.ended 0)
    else runBranch fuel s rest m

def runSimple : (fuel : Nat) → List (String × Word) → List Word → List Redirection → Machine → Flow × Machine
  | 0, _, _, _, m => (.exited, m.ended 1)
  | fuel + 1, assignments, words, rs, m =>
    let hasOutput := (words ++ assignments.map (·.2)).any fun w => w.any isOutput
    let (args, m) := expandWords (substitution fuel) m words
    let isSpecial := args.head?.any specialBuiltins.contains
    if m.isBroken then (.exited, m)
    else
      match redirect (substitution fuel) rs m with
      | .error failed =>
        (if isSpecial || failed.isBroken then .exited else .next, { failed with sinks := m.sinks, input := m.input })
      | .ok ready =>
        let (texts, assigned) := assignments.foldl (fun (texts, m) (name, w) =>
          let (v, m) := if m.isBroken then ("", m) else expandText (substitution fuel) m (w.map Piece.inQuotes)
          (texts ++ [s!"{name}={v}"], if m.isBroken then m else m.assign name v)) (([] : List String), ready)
        let isTraced := m.flags.contains 'x' && texts ++ args ≠ [] && !assigned.isBroken
        let traced := if !isTraced then assigned
          else
            let line := " ".intercalate (texts ++ args)
            let told := { assigned with sinks := m.sinks }.emit 2 (Bytes.ofString s!"+ {line}\n")
            { told with sinks := assigned.sinks }
        let names := assignments.map (·.1)
        let (f, done) : Flow × Machine :=
          if traced.isBroken then (.exited, traced)
          else
            match args with
            | [] => (.next, traced.ended (if hasOutput then traced.status else 0))
            | name :: rest => call fuel name rest { traced with exported := names ++ traced.exported }
        let isKept := isSpecial || args = []
        let restored := if isKept then done
          else names.foldl (fun d name => d.restoreVariable name (ready.bindings.lookup name)) done
        let exported := if names = [] then done.exported else m.exported
        if args = ["exec"] then (f, { restored with exported })
        else
          (f, { restored with exported, sinks := m.sinks
                              input := if rs.any fun r => r.stream = 0 then m.input else done.input })

def call : (fuel : Nat) → String → List String → Machine → Flow × Machine
  | 0, _, _, m => (.exited, m.ended 1)
  | fuel + 1, name, args, m =>
    match name with
    | "exit" => leaveWith .exited "exit" args m
    | "return" => leaveWith .returned "return" args m
    | "break" => leaveLoops "break" .leave args m
    | "continue" => leaveLoops "continue" .again args m
    | "eval" => runText fuel "eval: " (" ".intercalate args) m
    | "exec" =>
      match args with
      | [] => (.next, m.ended 0)
      | program :: rest =>
        match canRun m program with
        | .error .denied => (.exited, m.refuse s!"exec: {program}: Permission denied" 126)
        | .error _ => (.exited, m.refuse s!"exec: {program}: not found" 127)
        | .ok () =>
          let (f, done) := runProgramNamed fuel program rest m
          (if f = .next then .exited else f, { done with traps := [] })
    | "." =>
      match args with
      | [] => (.next, m.ended 0)
      | file :: _ =>
        if !isPath file then (.exited, m.refuse s!".: {file}: not found" 2)
        else
          match contentsOf m file with
          | .error _ => (.exited, m.refuse s!".: cannot open {file}: No such file" 2)
          | .ok b =>
            let (f, done) := runText fuel "" (Utf8.decodeLossy b) (m.ended 0)
            (if f = .returned then .next else f, done)
    | "kill" =>
      match args with
      | [] => (.next, m.refuse killUsage 2)
      | "-l" :: rest => (.next, listSignals rest m)
      | _ =>
        match killArguments args with
        | .error e => (.next, m.refuse s!"kill: {e}" 2)
        | .ok (_, []) => (.next, m.refuse killUsage 2)
        | .ok (n, processes) =>
          let (isHit, m) := findProcesses processes (m.ended 0)
          if !isHit || n = 0 then (.next, m)
          else
            match if isUntrappable n then none else m.traps.lookup (signalName n) with
            | some text =>
              let (f, done) := runText fuel "" text m
              (f, if f = .next then done.ended m.status else done)
            | none => (if isFatal n then .killed n else .next, m)
    | "command" =>
      match args with
      | [] => (.next, m.ended 0)
      | "-v" :: program :: _ => (.next, locate program m)
      | "-V" :: program :: _ => (.next, describe [program] m)
      | "-p" :: program :: rest => call fuel program rest { m with functions := [] }
      | program :: rest =>
        let (f, done) := call fuel program rest { m with functions := [] }
        (f, { done with functions := m.functions })
    | _ =>
      match m.functions.lookup name, builtins.lookup name with
      | some body, _ =>
        let (f, done) := run fuel body { m with parameters := args, hidden := some [], loops := 0 }
        let restored := (done.hidden.getD []).foldl (fun d (name, value) => d.restoreVariable name value) done
        (if f = .returned then .next else f,
          { restored with parameters := m.parameters, hidden := m.hidden, loops := m.loops })
      | none, some f =>
        let done := f args m
        (if done.isBroken then .exited else .next, done)
      | none, none =>
        match plainBuiltins.contains name, utility? name with
        | true, some f => (.next, f args m)
        | _, _ => runProgramNamed fuel name args m

def runProgramNamed : (fuel : Nat) → String → List String → Machine → Flow × Machine
  | 0, _, _, m => (.exited, m.ended 1)
  | fuel + 1, name, args, m =>
    let plain := programName name
    if !isPath name && !findsPrograms m then (.next, m.refuse s!"{name}: not found" 127)
    else if isShell name then
      match shellStart name args m with
      | .error m => (.next, m)
      | .ok (child, script) => runShell fuel script child m
    else if launchers.contains plain then launch fuel plain args m
    else
      match utility? plain with
      | some f => (.next, (if plain = "echo" then standAloneEcho else f) args m)
      | none =>
        let path := if isPath name then executableAt m name else .error .notFound
        match path with
        | .error .denied => (.next, m.refuse s!"{name}: Permission denied" 126)
        | .error _ => (.next, m.refuse s!"{name}: not found" 127)
        | .ok text =>
          match interpreter? text with
          | some (program :: more) =>
            if isShell program then runShell fuel text { m.newShell name with parameters := args } m
            else if isProgram (programName program) then runProgramNamed fuel program (more ++ name :: args) m
            else (.next, m.refuse s!"{name}: not found" 127)
          | _ => runShell fuel text { m.newShell name with parameters := args } m

/-- Call the program that the arguments of a launcher name. -/
def launch : (fuel : Nat) → String → List String → Machine → Flow × Machine
  | 0, _, _, m => (.exited, m.ended 1)
  | fuel + 1, name, args, m =>
    let start := fun (missing : String → String) (words : List String) (m : Machine) (back : Machine → Machine) =>
      match words with
      | [] => (Flow.next, m.ended 0)
      | program :: rest =>
        match canRun m program with
        | .error _ => (.next, m.complain (missing program) 127)
        | .ok () =>
          let (f, done) := runProgramNamed fuel program rest m
          (f, back done)
    let failed := fun program => s!"{name}: failed to run command '{program}': No such file or directory"
    match name with
    | "env" =>
      let (dropped, args) := optionValue 'u' args
      let clear := args.head? = some "-i"
      let args := if clear then args.drop 1 else args
      let settings := args.takeWhile fun a => ((splitAssignment a).2).isSome
      let names := settings.map fun a => (splitAssignment a).1
      let kept := if clear then [] else m.exported.filter fun n => dropped ≠ some n
      let ready := settings.foldl (fun m a =>
        let (n, v) := splitAssignment a
        m.setVariable n (v.getD "")) m
      start (fun program => s!"env: '{program}': No such file or directory") (args.drop settings.length)
        { ready with exported := names ++ kept } fun done => { done with exported := m.exported, bindings := m.bindings }
    | "timeout" =>
      match args.dropWhile fun a => a.toList.head? = some '-' with
      | limit :: "sleep" :: time :: _ => (.next, m.ended (if isShorter limit time then 124 else 0))
      | words => start failed (words.drop 1) m id
    | "nice" => start failed ((optionValue 'n' args).2) m id
    | "xargs" =>
      let words := ((Utf8.decodeLossy m.input).splitToList fun c => isBlank c).filter (· ≠ "")
      start (fun program => s!"xargs: {program}: No such file or directory") ((if args = [] then ["echo"] else args) ++ words)
        { m with input := [] } id
    | "which" =>
      (.next, forEach args (fun n m =>
        match programPath? m n with
        | some path => m.printLine path
        | none => m.ended 1) m)
    | _ => start failed args m id

def runShell : (fuel : Nat) → String → Machine → Machine → Flow × Machine
  | 0, _, _, m => (.exited, m.ended 1)
  | fuel + 1, script, child, m =>
    let (f, done) := conclude fuel (runText fuel "" script child)
    (.next, { m.rejoin f done with input := done.input })

/-- Run a text as a script; `before` stands in front of complaints about it. -/
def runText : (fuel : Nat) → (before : String) → String → Machine → Flow × Machine
  | 0, _, _, m => (.exited, m.ended 1)
  | fuel + 1, before, text, m =>
    match parse text.toList with
    | .ok .skip => (.next, m.ended 0)
    | .ok c => if m.flags.contains 'n' then (.next, m) else run fuel c m
    | .error e => (.exited, m.refuse s!"{before}Syntax error: {e}" 2)

def conclude : (fuel : Nat) → Flow × Machine → Flow × Machine
  | 0, r => r
  | fuel + 1, (f, m) =>
    match f.contained, m.traps.lookup "EXIT" with
    | .next, some text =>
      let rest := m.traps.filter (·.1 ≠ "EXIT")
      let (g, done) := runText fuel "" text { m with traps := rest, isBroken := false, loops := 0 }
      match g with
      | .exited => (.exited, done)
      | .killed s => (.killed s, done)
      | _ => (.exited, done.ended m.status)
    | _, _ => (f, m)

end

/-! ## Runners -/

def maxSteps : Nat := 100000

def output (f : Flow) (m : Machine) : InstructionOutput :=
  let text := fun (n : Nat) => Text.trim (Utf8.decodeLossy (m.printed n))
  let code : Option Int := match f with
    | .killed _ => none
    | _ => some ((m.status % 256 : Nat) : Int)
  ⟨text 0, text 1, code, code = some 0⟩

def runProgram (program flag instruction : String) (files : FileTree) :
    List Files.Step × Except Files.Fault InstructionOutput :=
  let start : Machine := { files, name := program }
  let args := [flag, instruction]
  if (program :: args).any fun s => s.toList.contains '\x00' then ([], .error .nulInArgument)
  else if isShell program then
    match shellStart program args start with
    | .error m => (m.steps, .ok (output .exited m))
    | .ok (m, script) =>
      let (f, m) := conclude maxSteps (runText maxSteps "" script m)
      (m.steps, .ok (output f m))
  else if program = "." ∨ program = ".." then ([], .error .denied)
  else
    match canRun start program with
    | .error e => ([], .error e)
    | .ok () =>
      let (f, m) := runProgramNamed maxSteps program args start
      (m.steps, .ok (output f m))

def runner : Runner := runProgram "sh" "-c"

end CertRotation.Shell
