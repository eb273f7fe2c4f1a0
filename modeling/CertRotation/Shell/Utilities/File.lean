import CertRotation.Shell.Utilities.Stream

/-!
# Utilities for files and directories
-/
namespace CertRotation.Shell

/-- The path of something put into a directory under its own name, or the path itself. -/
def intoDirectory (m : Machine) (source target : String) : String :=
  match m.files.stat target with
  | .ok (_, .directory) => Path.join target ((Path.names source).getLast?.getD "")
  | _ => target

def locationsFrom (t : FileTree) (place : Location) : List Location := (t.nodes.map (·.1)).filter place.isPrefixOf

def isDirectory (m : Machine) (path : String) : Bool := m.files.stat path matches .ok (_, .directory)

/-- Put each source into place by `f`; several sources need a directory. -/
def transfer (name : String) (args : List String) (f : String → String → Machine → Machine) (m : Machine) : Machine :=
  match args.getLast?, args.dropLast with
  | none, _ => m.misused name "missing file operand"
  | some only, [] => m.misused name s!"missing destination file operand after '{only}'"
  | some target, [source] => f source (intoDirectory m source target) (m.ended 0)
  | some target, sources =>
    if isDirectory m target then forEach sources (fun source m => f source (intoDirectory m source target) m) m
    else if m.files.exists? target then m.complain s!"{name}: target '{target}': Not a directory" 1
    else m.complain s!"{name}: target '{target}': {faultText .notFound}" 1

def copyTree (source target : Location) (m : Machine) : Machine :=
  let below := (locationsFrom m.files source).mergeSort fun a b => a.length ≤ b.length
  below.foldl (fun m l =>
    let place := target ++ l.drop source.length
    match m.files.node? l with
    | some .directory => if (m.files.node? place).isSome then m else m.take (.makeDirectory place)
    | some (.file b mode) => ((m.take (.create place)).take (.chmod place mode)).take (.write place b)
    | _ => m) m

def removeTree (place : Location) (m : Machine) : Machine :=
  ((locationsFrom m.files place).mergeSort fun a b => b.length ≤ a.length).foldl (fun m l => m.take (.remove l)) m

def cp : Utility := fun args m =>
  let (letters, operands) := splitOptions args
  let keepsMode := letters.contains 'p' || letters.contains 'a'
  let isRecursive := letters.contains 'r' || letters.contains 'R' || letters.contains 'a'
  transfer "cp" operands (fun source path m =>
    match m.files.stat source with
    | .error e => m.complain s!"cp: cannot stat '{source}': {faultText e}" 1
    | .ok (origin, .file contents mode) =>
      let old := m.files.stat path
      if old.toOption.any fun (place, _) => place = origin then
        m.complain s!"cp: '{source}' and '{path}' are the same file" 1
      else
        match m.store path contents with
        | .ok (place, m) =>
          if keepsMode then m.take (.chmod place mode)
          else if old.toOption.isNone then m.take (.chmod place (mode - (mode &&& m.mask)))
          else m
        | .error e => m.complain s!"cp: cannot create regular file '{path}': {faultText e}" 1
    | .ok (place, _) =>
      if !isRecursive then m.complain s!"cp: -r not specified; omitting directory '{source}'" 1
      else
        match m.files.entryAt path with
        | .ok (directory, name) => copyTree place (directory ++ [name]) m
        | .error e => m.complain s!"cp: cannot create directory '{path}': {faultText e}" 1) m

def mv : Utility := fun args =>
  transfer "mv" (splitOptions args).2 fun source path m =>
    match m.files.entryAt source with
    | .error e => m.complain s!"mv: cannot stat '{source}': {faultText e}" 1
    | .ok (directory, name) =>
      let place := directory ++ [name]
      match m.files.node? place, m.files.renameTarget path with
      | none, _ => m.complain s!"mv: cannot stat '{source}': {faultText .notFound}" 1
      | _, .error e => m.complain s!"mv: cannot move '{source}' to '{path}': {faultText e}" 1
      | some _, .ok target =>
        if target = place then m.complain s!"mv: '{source}' and '{path}' are the same file" 1
        else if m.files.node? place = some .directory then removeTree place (copyTree place target m)
        else m.take (.rename place target)

def rm : Utility := fun args m =>
  let (letters, files) := splitOptions args
  let isForced := letters.contains 'f'
  let missing := fun (path : String) (e : Files.Fault) (m : Machine) =>
    if isForced then m else m.complain s!"rm: cannot remove '{path}': {faultText e}" 1
  if files = [] ∧ !isForced then m.misused "rm" "missing operand"
  else
    forEach files (fun path m =>
      match m.files.entryAt path with
      | .error e => missing path e m
      | .ok (directory, name) =>
        let place := directory ++ [name]
        match m.files.node? place with
        | none => missing path .notFound m
        | some .directory =>
          if letters.contains 'r' ∨ letters.contains 'R' then removeTree place m
          else m.complain s!"rm: cannot remove '{path}': Is a directory" 1
        | some _ => m.take (.remove place)) m

def rmdir : Utility := fun args m =>
  match (splitOptions args).2 with
  | [] => m.misused "rmdir" "missing operand"
  | files =>
    forEach files (fun path m =>
      match m.files.stat path with
      | .ok (place, .directory) =>
        if (locationsFrom m.files place).length ≤ 1 then m.take (.remove place)
        else m.complain s!"rmdir: failed to remove '{path}': Directory not empty" 1
      | .ok _ => m.complain s!"rmdir: failed to remove '{path}': Not a directory" 1
      | .error e => m.complain s!"rmdir: failed to remove '{path}': {faultText e}" 1) m

def touch : Utility := fun args m =>
  match (splitOptions args).2 with
  | [] => m.misused "touch" "missing file operand"
  | files =>
    forEach files (fun path m =>
      match m.openFile path with
      | .ok (_, m) => m
      | .error .isADirectory => m
      | .error e => m.complain s!"touch: cannot touch '{path}': {faultText e}" 1) m

def tee : Utility := fun args m =>
  let (letters, files) := splitOptions args
  let b := m.input
  let m := ({ m with input := [] }).emit 1 b
  forEach files (fun path m =>
    if path = "/dev/null" then m
    else if path = "/dev/stderr" then m.emit 2 b
    else if path = "/dev/stdout" then m.emit 1 b
    else
      let old := if letters.contains 'a' then (m.files.read path).toOption.getD [] else []
      match m.store path (old ++ b) with
      | .ok (_, m) => m
      | .error e => m.complain s!"tee: {path}: {faultText e}" 1) m

/-! ## Modes -/

def permissionBits (letters : List Char) : Nat :=
  (if letters.contains 'r' then 0o444 else 0) ||| (if letters.contains 'w' then 0o222 else 0) |||
    (if letters.contains 'x' then 0o111 else 0)

def ownerBits (letters : List Char) : Nat :=
  (if letters.contains 'u' then 0o700 else 0) ||| (if letters.contains 'g' then 0o070 else 0) |||
    (if letters.contains 'o' then 0o007 else 0) ||| (if letters.contains 'a' then 0o777 else 0)

/-- The mode after a change such as `u+x`. -/
def changedMode? (mode : Nat) (change : String) : Option Nat :=
  let who := change.toList.takeWhile "ugoa".toList.contains
  match change.toList.drop who.length with
  | sign :: letters =>
    if !(letters.all "rwx".toList.contains) then none
    else
      let bits := permissionBits letters
      let all := if letters.contains 'w' ∧ sign ≠ '=' then 0o755 else 0o777
      let mask := if who = [] then all else ownerBits who
      match sign with
      | '+' => some (mode ||| (bits &&& mask))
      | '-' => some (mode - (mode &&& (bits &&& mask)))
      | '=' => some ((mode - (mode &&& mask)) ||| (bits &&& mask))
      | _ => none
  | [] => none

/-- The mode that an octal number or a list of changes makes of another. -/
def newMode? (mode : Nat) (text : String) : Option Nat :=
  if text ≠ "" ∧ text.toList.all isOctal then some (octalValue text.toList % 0o10000)
  else (text.splitOn ",").foldl (fun (mode : Option Nat) change => mode.bind (changedMode? · change)) (some mode)

def chmod : Utility := fun args m =>
  match args with
  | [] => m.misused "chmod" "missing operand"
  | [mode] => m.misused "chmod" s!"missing operand after '{mode}'"
  | mode :: files =>
    if (newMode? 0 mode).isNone then m.misused "chmod" s!"invalid mode: '{mode}'"
    else
      forEach files (fun path m =>
        match m.files.stat path with
        | .ok (place, .file _ old) => m.take (.chmod place ((newMode? old mode).getD old))
        | .ok _ => m
        | .error e => m.complain s!"chmod: cannot access '{path}': {faultText e}" 1) m

/-! ## Looking at files -/

def firstDifference (index lines : Nat) : Bytes → Bytes → Option (Nat × Nat)
  | x :: a, y :: b => if x = y then firstDifference (index + 1) (lines + if x = 10 then 1 else 0) a b else some (index, lines)
  | _, _ => none

def cmp : Utility := fun args m =>
  let (letters, files) := splitOptions args
  let isSilent := letters.contains 's'
  let tell := fun (message : String) (status : Nat) (m : Machine) =>
    if isSilent then m.ended status else m.complain message status
  let (a, b) := (files.headD "", (files.drop 1).headD "-")
  if files = [] then m.complain "cmp: missing operand after 'cmp'\ncmp: Try 'cmp --help' for more information." 2
  else
    match contentsOf m a, contentsOf m b with
    | .ok x, .ok y =>
      if x = y then m.ended 0
      else
        match firstDifference 1 1 x y with
        | some (i, line) => if isSilent then m.ended 1 else (m.printLine s!"{a} {b} differ: char {i}, line {line}").ended 1
        | none =>
          let (shorter, c) := if x.length < y.length then (a, x) else (b, y)
          if c = [] then tell s!"cmp: EOF on {shorter} which is empty" 1 m
          else
            let lines := c.count 10
            let place := if c.getLast? = some 10 then s!"line {lines}" else s!"in line {lines + 1}"
            tell s!"cmp: EOF on {shorter} after byte {c.length}, {place}" 1 m
    | .error e, _ => tell s!"cmp: {a}: {faultText e}" 2 m
    | _, .error e => tell s!"cmp: {b}: {faultText e}" 2 m

def ls : Utility := fun args m =>
  let (letters, files) := splitOptions args
  let names := fun (place : Location) =>
    let all := m.files.nodes.filterMap fun (l, _) =>
      if place.isPrefixOf l && l.length = place.length + 1 then l.getLast? else none
    (if letters.contains 'a' then [".", ".."] else []) ++
      ((all.filter fun s => letters.contains 'a' || letters.contains 'A' || s.toList.head? ≠ some '.').mergeSort fun a b => a ≤ b)
  let paths := if files = [] then ["."] else files.mergeSort fun a b => a ≤ b
  let isListed := fun (path : String) => !letters.contains 'd' && isDirectory m path
  let failed := paths.foldl (fun m path =>
    match m.files.stat path with
    | .ok _ => m
    | .error e => m.complain s!"ls: cannot access '{path}': {faultText e}" 2) (m.ended 0)
  let found := paths.filter fun path => (m.files.stat path).isOk
  let plain := found.filter fun path => !isListed path
  let done := plain.foldl Machine.printLine failed
  (found.filter isListed).zipIdx.foldl (fun m (path, i) =>
    match m.files.stat path with
    | .ok (place, _) =>
      let heading := if paths.length < 2 then "" else (if i = 0 ∧ plain = [] then "" else "\n") ++ path ++ ":\n"
      (names place).foldl Machine.printLine (m.print heading)
    | .error _ => m) done

/-- All parents of a location and itself, the topmost first. -/
def ancestors (l : Location) : List Location := (List.range l.length).map fun i => l.take (i + 1)

def mkdir : Utility := fun args m =>
  let (letters, files) := splitOptions args
  if files = [] then m.misused "mkdir" "missing operand"
  else
    forEach files (fun path m =>
      let place := m.files.start path ++ (Path.names path).filter (· ≠ ".")
      if letters.contains 'p' then
        if (ancestors place).any fun l => (m.files.node? l).any (· ≠ .directory) then
          m.complain s!"mkdir: cannot create directory '{path}': Not a directory" 1
        else (ancestors place).foldl (fun m l => if (m.files.node? l).isSome then m else m.take (.makeDirectory l)) m
      else if (m.files.node? place).isSome then m.complain s!"mkdir: cannot create directory '{path}': File exists" 1
      else if m.files.node? place.dropLast = some .directory then m.take (.makeDirectory place)
      else m.complain s!"mkdir: cannot create directory '{path}': {faultText .notFound}" 1) m

/-! ## Names -/

def basename : Utility := fun args m =>
  match args with
  | path :: rest =>
    let name := (Path.names path).getLast?.getD "/"
    let ending := (rest.headD "").toList
    let isCut := ending.isSuffixOf name.toList && ending.length < name.length
    (m.printLine (if isCut then String.ofList (name.toList.take (name.length - ending.length)) else name)).ended 0
  | [] => m.misused "basename" "missing operand"

def dirname : Utility := fun args m =>
  if args = [] then m.misused "dirname" "missing operand"
  else
    forEach args (fun path m =>
      let parent := (Path.parent? path).getD "/"
      m.printLine (if parent = "" then "." else parent)) m

def readlink : Utility := fun args m =>
  match (splitOptions args).2 with
  | [] => m.misused "readlink" "missing operand"
  | files =>
    forEach files (fun path m =>
      match m.files.entryAt path with
      | .ok (directory, name) =>
        match m.files.node? (directory ++ [name]) with
        | some (.link target) => m.printLine target
        | _ => m.ended 1
      | .error _ => m.ended 1) m

def octalText (n : Nat) : String := String.ofList (Nat.toDigits 8 n)

def fileFormat (path : String) (n : Node) : List Char → String
  | '%' :: c :: rest =>
    let field := match c, n with
      | 'n', _ => path
      | 's', .file b _ => toString b.length
      | 'a', .file _ mode => octalText mode
      | 'a', _ => "755"
      | 'F', .file b _ => if b = [] then "regular empty file" else "regular file"
      | 'F', _ => "directory"
      | 'U', _ => "root"
      | 'G', _ => "root"
      | 'u', _ => "0"
      | 'g', _ => "0"
      | _, _ => "?"
    field ++ fileFormat path n rest
  | c :: rest => c.toString ++ fileFormat path n rest
  | [] => ""

def stat : Utility := fun args m =>
  let (format, files) := optionValue 'c' args
  if files = [] then m.misused "stat" "missing operand"
  else
    forEach files (fun path m =>
      match m.files.stat path with
      | .ok (_, n) => m.printLine (fileFormat path n (format.getD "%n").toList)
      | .error e => m.complain s!"stat: cannot statx '{path}': {faultText e}" 1) m

end CertRotation.Shell
