import CertRotation.Hash.Sha1
import CertRotation.Hash.Sha256
import CertRotation.Hash.Sha512
import CertRotation.Pem.Base64
import CertRotation.Shell.Pattern
import CertRotation.Shell.Printing
import CertRotation.Text.Utf8

/-!
# Utilities for streams of text

Each reads its arguments, then the named files or the input, prints, and leaves its status.
-/
namespace CertRotation.Shell

abbrev Utility := List String → Machine → Machine

/-! ## Arguments and contents -/

/-- The options among the arguments, as letters, and the other arguments. -/
def splitOptions : List String → List Char × List String
  | [] => ([], [])
  | a :: rest =>
    match a.toList with
    | ['-', '-'] => ([], rest)
    | '-' :: c :: cs =>
      let (letters, others) := splitOptions rest
      (c :: cs ++ letters, others)
    | _ =>
      let (letters, others) := splitOptions rest
      (letters, a :: others)

/-- The value of an option that takes one, wherever it stands, and the other arguments. -/
def optionValue (letter : Char) : List String → Option String × List String
  | [] => (none, [])
  | a :: rest =>
    let isNamed := a.toList.take 2 = ['-', letter]
    match rest with
    | value :: others =>
      if isNamed && a.length = 2 then (some value, others)
      else if isNamed then (some (String.ofList (a.toList.drop 2)), rest)
      else
        let (found, more) := optionValue letter rest
        (found, a :: more)
    | [] => if isNamed && 2 < a.length then (some (String.ofList (a.toList.drop 2)), []) else (none, [a])

/-- Do something for each argument, the worst status being that of all. -/
def forEach (args : List String) (f : String → Machine → Machine) (m : Machine) : Machine :=
  args.foldl (fun m a =>
    let before := m.status
    let m := f a (m.ended 0)
    m.ended (max before m.status)) (m.ended 0)

def Machine.misused (m : Machine) (name message : String) : Machine :=
  m.complain s!"{name}: {message}\nTry '{name} --help' for more information." 1

/-- How much of the endless stream of zeros is ever read. -/
def zeroStreamSize : Nat := 0x200000

/-- The octets of a file, or of the input if it is a dash. -/
def contentsOf (m : Machine) (path : String) : Except Files.Fault Bytes :=
  match path with
  | "-" => .ok m.input
  | "/dev/stdin" => .ok m.input
  | "/dev/null" => .ok []
  | "/dev/zero" => .ok (List.replicate zeroStreamSize 0)
  | _ => m.files.read path

/-- Feed the contents of files, or the input, to `f`; `fault` says what is wrong with a file. -/
def withContents (fault : String → Files.Fault → String) (failure : Nat) (args : List String)
    (f : String → Bytes → Machine → Machine) (m : Machine) : Machine :=
  if args = [] then f "" m.input ({ m with input := [] }.ended 0)
  else forEach args (fun path m =>
    match contentsOf m path with
    | .ok b => f path b (if path = "-" then { m with input := [] } else m)
    | .error e => m.complain (fault path e) failure) m

def plainFault (name path : String) (e : Files.Fault) : String := s!"{name}: {path}: {faultText e}"

/-- The complaint about a file that cannot be opened. -/
def openFault (name path : String) (e : Files.Fault) : String :=
  if e = .isADirectory then s!"{name}: error reading '{path}': {faultText e}"
  else s!"{name}: cannot open '{path}' for reading: {faultText e}"

def linesOf : Bytes → List Bytes
  | [] => []
  | x :: rest =>
    if x = 10 then [10] :: linesOf rest
    else
      match linesOf rest with
      | [] => [[x]]
      | l :: ls => (x :: l) :: ls

def bareLine (l : Bytes) : Bytes := if l.getLast? = some 10 then l.dropLast else l

def Machine.printLines (m : Machine) (ls : List Bytes) : Machine := m.emit 1 (ls.flatMap (· ++ [10]))

/-! ## Whole files and parts of them -/

def cat : Utility := fun args => withContents (plainFault "cat") 1 (splitOptions args).2 fun _ b m => m.emit 1 b

def tac : Utility := fun args =>
  withContents (openFault "tac") 1 (splitOptions args).2 fun _ b m => m.emit 1 (linesOf b).reverse.flatten

def rev : Utility := fun args =>
  withContents (plainFault "rev") 1 (splitOptions args).2 fun _ b m =>
    m.emit 1 ((linesOf b).flatMap fun l =>
      let text := Bytes.ofString (String.ofList (Utf8.decodeLossy (bareLine l)).toList.reverse)
      if l.getLast? = some 10 then text ++ [10] else text)

/-- The unit, the count and the files that `head` and `tail` are asked for. -/
def countOptions : List String → Char × String × List String
  | "-n" :: n :: rest => let (_, _, files) := countOptions rest; ('n', n, files)
  | "-c" :: n :: rest => let (_, _, files) := countOptions rest; ('c', n, files)
  | a :: rest =>
    let (unit, n, files) := countOptions rest
    match a.toList with
    | '-' :: 'n' :: c :: cs => ('n', String.ofList (c :: cs), files)
    | '-' :: 'c' :: c :: cs => ('c', String.ofList (c :: cs), files)
    | '-' :: c :: cs => if c.isDigit then ('n', String.ofList (c :: cs), files) else (unit, n, files)
    | _ => (unit, n, a :: files)
  | [] => ('n', "10", [])

/-- The first `count` items, or all but so many of the last if a minus sign stands in front. -/
def firstOf {α : Type} (count : String) (l : List α) : List α :=
  match count.toList with
  | '-' :: digits => l.take (l.length - (String.ofList digits).toNat?.getD 0)
  | _ => l.take (count.toNat?.getD 0)

/-- The last `count` items, or all from a place on if a plus sign stands in front. -/
def lastOf {α : Type} (count : String) (l : List α) : List α :=
  match count.toList with
  | '+' :: digits => l.drop ((String.ofList digits).toNat?.getD 0 - 1)
  | '-' :: digits => l.drop (l.length - (String.ofList digits).toNat?.getD 0)
  | _ => l.drop (l.length - count.toNat?.getD 0)

/-- Print a part of each file, under its name if there are several. -/
def parts (name : String) (part : {α : Type} → String → List α → List α) : Utility := fun args =>
  let (unit, count, files) := countOptions args
  withContents (openFault name) 1 files fun path b m =>
    let m := if files.length < 2 then m
      else m.print ((if files.head? = some path then "" else "\n") ++ s!"==> {path} <==\n")
    m.emit 1 (if unit = 'c' then part count b else (part count (linesOf b)).flatten)

def head : Utility := parts "head" firstOf

def tail : Utility := parts "tail" lastOf

/-! ## Counting -/

def isSpaceOctet (x : UInt8) : Bool := x = 32 || (9 ≤ x && x ≤ 13)

/-- How many words there are; `inside` tells whether one has begun. -/
def countWords (inside : Bool) (b : Bytes) : Nat :=
  (b.foldl (fun (n, inside) x =>
    if isSpaceOctet x then (n, false) else (if inside then n else n + 1, true)) (0, inside)).1

def wc : Utility := fun args m =>
  let (letters, files) := splitOptions args
  let wanted := fun (b : Bytes) =>
    let counts := [('l', b.count 10), ('w', countWords false b), ('m', (Utf8.decodeLossy b).length), ('c', b.length)]
    (if letters = [] then counts.filter (·.1 ≠ 'm') else counts.filter fun (c, _) => letters.contains c).map (·.2)
  let total := (files.filterMap fun path => (contentsOf m path).toOption).foldl (fun n b => n + b.length) 0
  let width := if files = [] then (if letters.length = 1 then 1 else 7)
    else if letters.length = 1 ∧ files.length = 1 then 1 else (toString total).length
  let row := fun (counts : List Nat) (path : String) =>
    " ".intercalate (counts.map (fun n =>
      String.ofList (List.replicate (width - (toString n).length) ' ') ++ toString n) ++ if path = "" then [] else [path])
  let m := withContents (plainFault "wc") 1 files (fun path b m => m.printLine (row (wanted b) path)) m
  if files.length < 2 then m
  else
    let all := (files.filterMap fun path => (contentsOf m path).toOption).map wanted
    m.printLine (row (all.foldl (fun sums counts => if sums = [] then counts else List.zipWith (· + ·) sums counts) []) "total")

/-! ## Characters -/

def octetSet : (fuel : Nat) → List Char → Bytes
  | 0, _ => []
  | fuel + 1, cs =>
    let between := fun (low high : Char) =>
      (List.range (high.toNat + 1 - low.toNat)).map fun i => UInt8.ofNat (low.toNat + i)
    match cs with
    | [] => []
    | '[' :: rest =>
      match namedClass? rest with
      | some (ranges, after) => ranges.flatMap (fun (low, high) => between low high) ++ octetSet fuel after
      | none => 91 :: octetSet fuel rest
    | '\\' :: rest =>
      let (b, size) := escapeOctets false rest
      (if b.head? = some 92 then b.drop (b.length - 1) else b) ++ octetSet fuel (rest.drop size)
    | a :: '-' :: b :: rest => between a b ++ octetSet fuel rest
    | c :: rest => ofChars [c] ++ octetSet fuel rest

/-- Leave only the first of equal octets in a row that are members of a set. -/
def squeezed (set : Bytes) : Bytes → Bytes
  | x :: y :: rest => if x = y ∧ set.contains x then squeezed set (y :: rest) else x :: squeezed set (y :: rest)
  | b => b

def tr : Utility := fun args m =>
  let (letters, sets) := splitOptions args
  let isComplement := letters.contains 'c' || letters.contains 'C'
  let setOf := fun (s : String) => octetSet (s.length + 1) s.toList
  let b := m.input
  let done := ({ m with input := [] }).ended 0
  match sets with
  | [] => m.misused "tr" "missing operand"
  | first :: others =>
    let s := setOf first
    let isMember := fun (x : UInt8) => s.contains x != isComplement
    match others with
    | [] =>
      if letters.contains 'd' then done.emit 1 (b.filter fun x => !isMember x)
      else if letters.contains 's' then done.emit 1 (squeezed (b.filter isMember) b)
      else m.misused "tr" s!"missing operand after '{first}'\nTwo strings must be given when translating."
    | second :: _ =>
      let t := setOf second
      let change := fun (x : UInt8) =>
        if isComplement then (if isMember x then t.getLastD x else x)
        else
          match s.reverse.findIdx? (· = x) with
          | some i => t.getD (s.length - 1 - i) (t.getLastD x)
          | none => x
      let changed := if letters.contains 'd' then b.filter fun x => !isMember x else b.map change
      done.emit 1 (if letters.contains 's' then squeezed t changed else changed)

/-! ## Lines -/

def leadingNumber (l : Bytes) : Int :=
  let cs := (Utf8.decodeLossy l).toList.dropWhile (· = ' ')
  let (isNegative, digits) := match cs with
    | '-' :: rest => (true, rest.takeWhile Char.isDigit)
    | _ => (false, cs.takeWhile Char.isDigit)
  let n : Int := ((String.ofList digits).toNat?.getD 0 : Nat)
  if isNegative then -n else n

/-- Leave only the first of equal lines in a row. -/
def distinctLines : List Bytes → List Bytes
  | a :: b :: rest => if a = b then distinctLines (b :: rest) else a :: distinctLines (b :: rest)
  | ls => ls

def sort : Utility := fun args m =>
  let (letters, files) := splitOptions args
  let isBefore := fun (a b : Bytes) =>
    if letters.contains 'n' && leadingNumber a != leadingNumber b then decide (leadingNumber a < leadingNumber b)
    else decide (a ≤ b)
  let fault := fun (path : String) (e : Files.Fault) =>
    if e = .isADirectory then s!"sort: read failed: {path}: {faultText e}" else s!"sort: cannot read: {path}: {faultText e}"
  let mute := { m with sinks := [(2, (m.sinks.lookup 2).getD .discard)] }
  let checked := withContents fault 2 files (fun _ _ m => m) mute
  let m := { checked with sinks := m.sinks, input := [] }
  if m.status ≠ 0 then m
  else
    let all := if files = [] then mute.input else files.flatMap fun path => ((contentsOf mute path).toOption).getD []
    let sorted := ((linesOf all).map bareLine).mergeSort isBefore
    let sorted := if letters.contains 'u' then distinctLines sorted else sorted
    m.printLines (if letters.contains 'r' then sorted.reverse else sorted)

def lineRuns : List Bytes → List (Nat × Bytes)
  | [] => []
  | l :: rest =>
    match lineRuns rest with
    | (n, k) :: runs => if k = l then (n + 1, k) :: runs else (1, l) :: (n, k) :: runs
    | [] => [(1, l)]

def uniq : Utility := fun args =>
  let (letters, files) := splitOptions args
  withContents (plainFault "uniq") 1 (files.take 1) fun _ b m =>
    let runs := (lineRuns ((linesOf b).map bareLine)).filter fun (n, _) =>
      (!letters.contains 'd' || 1 < n) && (!letters.contains 'u' || n = 1)
    m.printLines (runs.map fun (n, l) =>
      if letters.contains 'c' then
        Bytes.ofString (String.ofList (List.replicate (7 - (toString n).length) ' ') ++ toString n ++ " ") ++ l
      else l)

/-- Whether a list of places such as `1,3-5,7-` holds one. -/
def holdsPlace (places : String) (n : Nat) : Bool :=
  (places.splitOn ",").any fun part =>
    match (part.splitOn "-").map String.toNat? with
    | [some a] => n = a
    | [some a, some b] => a ≤ n && n ≤ b
    | [some a, none] => a ≤ n
    | [none, some b] => n ≤ b
    | _ => false

def chosen {α : Type} (places : String) (l : List α) : List α :=
  (l.zipIdx.filter fun (_, i) => holdsPlace places (i + 1)).map (·.1)

def cut : Utility := fun args m =>
  let (delimiter, args) := optionValue 'd' args
  let (fields, args) := optionValue 'f' args
  let (characters, args) := optionValue 'c' args
  let (octets, args) := optionValue 'b' args
  let (letters, files) := splitOptions args
  let sign := delimiter.getD "\t"
  match fields, characters.orElse fun _ => octets with
  | some places, _ =>
    withContents (plainFault "cut") 1 files (fun _ b m =>
      (linesOf b).foldl (fun m l =>
        let parts := (Utf8.decodeLossy (bareLine l)).splitOn sign
        if parts.length = 1 then (if letters.contains 's' then m else m.printLines [bareLine l])
        else m.printLine (sign.intercalate (chosen places parts))) m) m
  | none, some places =>
    withContents (plainFault "cut") 1 files (fun _ b m => m.printLines ((linesOf b).map fun l => chosen places (bareLine l))) m
  | none, none => m.misused "cut" "you must specify a list of bytes, characters, or fields"

/-- Print the lines that an expression is found in. -/
def grep : Utility := fun args m =>
  let (letters, others) := splitOptions args
  match others with
  | [] => m.complain "Usage: grep [OPTION]... PATTERNS [FILE]...\nTry 'grep --help' for more information." 2
  | pattern :: files =>
    let folded := fun (cs : List Char) => if letters.contains 'i' then cs.map Char.toLower else cs
    let wanted := folded pattern.toList
    let holds := fun (l : Bytes) =>
      let text := folded (Utf8.decodeLossy (bareLine l)).toList
      if letters.contains 'F' then
        if letters.contains 'x' then text = wanted
        else (List.range (text.length + 1)).any fun i => wanted.isPrefixOf (text.drop i)
      else holdsExpression (if letters.contains 'x' then '^' :: wanted ++ ['$'] else wanted) text
    let before := fun (path : String) =>
      if files.length < 2 || letters.contains 'h' then "" else path ++ ":"
    let isQuiet := letters.contains 'q'
    let m := withContents (plainFault "grep") 2 files (fun path b m =>
      let found := (linesOf b).zipIdx.filter fun (l, _) => holds l != letters.contains 'v'
      let m := if isQuiet then m
        else if letters.contains 'c' then m.printLine (before path ++ toString found.length)
        else if letters.contains 'l' then (if found.isEmpty then m else m.printLine path)
        else if letters.contains 'o' then m.printLines (found.map fun _ => ofChars wanted)
        else found.foldl (fun m (l, i) =>
          let number := if letters.contains 'n' then toString (i + 1) ++ ":" else ""
          (m.print (before path ++ number)).printLines [bareLine l]) m
      m.ended (if found.isEmpty then 0 else 1)) m
    m.ended (if m.status = 1 then 0 else if m.status = 0 then 1 else m.status)

/-! ## Encodings and sums -/

def base64 : Utility := fun args m =>
  let (letters, files) := splitOptions args
  withContents (plainFault "base64") 1 files (fun _ b m =>
    if letters.contains 'd' then
      match Base64.decode (b.filter (· ≠ 10)) with
      | .ok d => m.emit 1 d
      | .error _ => m.complain "base64: invalid input" 1
    else m.printLines ((chunks 76 (Base64.encode b)).map ofChars)) m

def digests (name : String) (digest : Bytes → Bytes) : Utility := fun args =>
  withContents (plainFault name) 1 args fun path b m =>
    let name := if path = "" then "-" else path
    m.printLine s!"{Bytes.hex (digest b)}  {name}"

/-! ## Sources of text -/

def countFrom (a step b : Int) : List Int :=
  if 0 < step then (List.range ((b - a) / step + 1).toNat).map fun (i : Nat) => a + step * i
  else if step < 0 then (List.range ((a - b) / (-step) + 1).toNat).map fun (i : Nat) => a + step * i
  else []

def seq : Utility := fun args m =>
  let (separator, args) := optionValue 's' args
  let listed := fun (ns : List Int) =>
    let text := (separator.getD "\n").intercalate (ns.map toString)
    (if ns = [] then m else m.printLine text).ended 0
  let first := args.headD ""
  match args.map String.toInt? with
  | [some b] => listed (countFrom 1 1 b)
  | [some a, some b] => listed (countFrom a 1 b)
  | [some a, some step, some b] => listed (countFrom a step b)
  | [] => m.misused "seq" "missing operand"
  | _ => m.misused "seq" s!"invalid floating point argument: '{first}'"

def endlessLines : Nat := 0x80000

def yes : Utility := fun args m =>
  let line := Bytes.ofString ((if args = [] then "y" else " ".intercalate args) ++ "\n")
  (m.emit 1 (List.replicate endlessLines line).flatten).ended 0

end CertRotation.Shell
