import CertRotation.Shell.Arithmetic
import CertRotation.Shell.Machine
import CertRotation.Shell.Pattern
import CertRotation.Text.Utf8

/-!
# Expanding words

The pieces of a word are filled in; what comes from an expansion without quotes is split into fields at blanks, and
fields with wild cards stand for the names in the working directory that match.
-/
namespace CertRotation.Shell

def isBlank (c : Char) : Bool := c = ' ' || c = '\t' || c = '\n'

/-- Fields that are being put together, in reverse. -/
structure Fields where
  finished : List (List Mark) := []
  current : Option (List Mark) := none

namespace Fields

def add (f : Fields) (cs : List Mark) : Fields := { f with current := some (cs.reverse ++ f.current.getD []) }

def cut (f : Fields) : Fields :=
  match f.current with
  | none => f
  | some c => ⟨c.reverse :: f.finished, none⟩

/-- Add characters, of which separators that are not quoted end fields. Between two blanks there is no field. -/
def addSplit (f : Fields) (separators : List Char) (cs : List Mark) : Fields :=
  cs.foldl (fun f (c, isQuoted) =>
    if isQuoted || !separators.contains c then f.add [(c, isQuoted)]
    else if isBlank c then f.cut
    else (f.add []).cut) f

def addText (f : Fields) (separators : List Char) (cs : List Char) (inQuotes : Bool) : Fields :=
  if inQuotes then f.add (cs.map (·, true)) else f.addSplit separators (cs.map (·, false))

def toList (f : Fields) : List (List Mark) := f.cut.finished.reverse

def joined (f : Fields) : List Mark := List.intercalate [(' ', false)] f.toList

end Fields

def textOf (f : List Mark) : String := String.ofList (f.map (·.1))

/-! ## Parameters -/

def shellNumber : String := "4242"

def backgroundNumber : String := "4243"

def Machine.parameter? (m : Machine) (name : String) : Option String :=
  match name with
  | "?" => some (toString m.status)
  | "$" => some shellNumber
  | "#" => some (toString m.parameters.length)
  | "0" => some m.name
  | "@" => some (" ".intercalate m.parameters)
  | "*" => some ((String.ofList (m.separators.take 1)).intercalate m.parameters)
  | "-" => some (String.ofList ("ubaCEVvxsnmiIfe".toList.filter m.flags.contains))
  | "!" => some (if m.background.isSome then backgroundNumber else "")
  | _ =>
    match digits? name with
    | some n => m.parameters[n - 1]?
    | none => m.bindings.lookup name

def Machine.valueOf (m : Machine) (name : String) : List Char × Machine :=
  match m.parameter? name with
  | some v => (v.toList, m)
  | none => ([], if m.flags.contains 'u' then m.abort s!"{name}: parameter not set" 2 else m)

def splitName (text : List Char) : List Char × List Char :=
  let size := if text.head?.any isNameStart then (text.takeWhile isNameChar).length
    else if text.head?.any Char.isDigit then (text.takeWhile Char.isDigit).length
    else if text.head?.any isSpecial then 1 else 0
  (text.take size, text.drop size)

/-- The sign of an operation on a parameter, and the word that follows it. -/
def splitOperator (cs : List Char) : Option (String × List Char) :=
  signAt? [":-", ":=", ":?", ":+", "-", "=", "?", "+", "%%", "%", "##", "#"] cs

/-- `value` without the shortest or longest end that matches a pattern. -/
def dropMatchingEnd (isLongest : Bool) (pattern : List Mark) (value : List Char) : List Char :=
  let sizes := List.range (value.length + 1)
  let found := (if isLongest then sizes else sizes.reverse).find? fun n => matchesPattern pattern (value.drop n)
  value.take (found.getD value.length)

/-- `value` without the shortest or longest beginning that matches a pattern. -/
def dropMatchingStart (isLongest : Bool) (pattern : List Mark) (value : List Char) : List Char :=
  let sizes := List.range (value.length + 1)
  let found := (if isLongest then sizes.reverse else sizes).find? fun n => matchesPattern pattern (value.take n)
  value.drop (found.getD 0)

def namesIn (t : FileTree) (directory : Location) : List String :=
  (t.nodes.filterMap fun (l, _) =>
    if directory.isPrefixOf l && l.length = directory.length + 1 then l.getLast? else none).mergeSort fun a b => a ≤ b

def hasWildCard (f : List Mark) : Bool := f.any fun (c, isQuoted) => !isQuoted && (c = '*' || c = '?' || c = '[')

/-- The paths below a directory that match some names with wild cards, each with `before` in front. -/
def pathsFrom (t : FileTree) (directory : Location) (before : String) : List (List Mark) → List String
  | [] => [before]
  | f :: rest =>
    let isHidden := fun (s : String) => s.toList.head? = some '.' && f.head?.all (·.1 ≠ '.')
    let names := if hasWildCard f then (namesIn t directory).filter fun s => !isHidden s && matchesPattern f s.toList
      else if (t.node? (directory ++ [textOf f])).isSome then [textOf f] else []
    let separator := if rest = [] then "" else "/"
    names.flatMap fun s => pathsFrom t (directory ++ [s]) (before ++ s ++ separator) rest

def splitMarks (piece : List Mark) : List Mark → List (List Mark)
  | [] => [piece.reverse]
  | ('/', _) :: rest => piece.reverse :: splitMarks [] rest
  | x :: rest => splitMarks (x :: piece) rest

def matchingNames (t : FileTree) (f : List Mark) : List String :=
  if hasWildCard f then
    match pathsFrom t t.working "" (splitMarks [] f) with
    | [] => [textOf f]
    | names => names
  else [textOf f]

/-! ## Words -/

abbrev Substitution := List Char → Machine → Bytes × Machine

/-- The output of a script without the line ends at its end. -/
def outputText (b : Bytes) : List Char :=
  ((Utf8.decodeLossy b).toList.reverse.dropWhile (· = '\n')).reverse

def wholeWord : (fuel : Nat) → List Char → Except String Word
  | 0, _ => .ok []
  | fuel + 1, cs => do
    let (w, rest) ← word (cs.length + 1) cs
    match rest with
    | [] => pure w
    | c :: more => return w ++ .plain c :: (← wholeWord fuel more)

/-- Fill in a piece. `depth` bounds how deep expansions are nested. -/
def expandPiece (sub : Substitution) : (depth : Nat) → Fields → Machine → Piece → Fields × Machine
  | 0, f, m, _ => (f, m)
  | depth + 1, f, m, p =>
    let expandAll := fun (m : Machine) (text : List Char) =>
      match wholeWord (text.length + 1) text with
      | .ok w => w.foldl (fun (f, m) p => expandPiece sub depth f m p) (({} : Fields), m)
      | .error e => ({}, m.abort s!"Syntax error: {e}" 2)
    match p with
    | .plain c => (f.add [(c, false)], m)
    | .quoted s => (f.add (s.map (·, true)), m)
    | .parameter ['@'] true =>
      let parts := m.parameters.map fun (p : String) => p.toList.map (·, true)
      (match parts with
        | [] => f
        | first :: rest => rest.foldl (fun f p => f.cut.add p) (f.add first), m)
    | .parameter ('#' :: c :: rest) inQuotes =>
      let (v, m) := m.valueOf (String.ofList (c :: rest))
      (f.addText m.separators (toString v.length).toList inQuotes, m)
    | .parameter text inQuotes =>
      let (name, rest) := splitName text
      let name := String.ofList name
      match rest, splitOperator rest with
      | [], _ =>
        let (v, m) := m.valueOf name
        (if name = "" then f else f.addText m.separators v inQuotes, if name = "" then m.abort "Bad substitution" 2 else m)
      | _, none => (f, m.abort "Bad substitution" 2)
      | _, some (sign, other) =>
        let value := m.parameter? name
        let isMissing := if sign.length = 2 && sign.toList.head? = some ':' then value.all (· = "") else value.isNone
        let given := f.addText m.separators (value.getD "").toList inQuotes
        match sign.toList.getLast? with
        | some '-' =>
          if !isMissing then (given, m)
          else
            let (w, m) := expandAll m other
            (if inQuotes then f.add (w.joined.map fun (c, _) => (c, true)) else f.addSplit m.separators w.joined, m)
        | some '+' =>
          if isMissing then (if inQuotes then f.add [] else f, m)
          else
            let (w, m) := expandAll m other
            (if inQuotes then f.add (w.joined.map fun (c, _) => (c, true)) else f.addSplit m.separators w.joined, m)
        | some '=' =>
          if !isMissing then (given, m)
          else
            let (w, m) := expandAll m other
            let v := textOf w.joined
            (f.addText m.separators v.toList inQuotes, m.assign name v)
        | some '?' =>
          if !isMissing then (given, m)
          else
            let (w, m) := expandAll m other
            let orNull := if sign.length = 2 then " or null" else ""
            let message := if w.joined = [] then "parameter not set" ++ orNull else textOf w.joined
            (f, m.abort s!"{name}: {message}" 2)
        | last =>
          let (w, m) := expandAll m other
          let isLongest := sign.length = 2
          let v := (value.getD "").toList
          (f.addText m.separators (if last = some '%' then dropMatchingEnd isLongest w.joined v
            else dropMatchingStart isLongest w.joined v) inQuotes, m)
    | .output script inQuotes =>
      let (b, m) := sub script m
      (f.addText m.separators (outputText b) inQuotes, m)
    | .arithmetic e inQuotes =>
      let (w, m) := expandAll m ('"' :: protectQuotes e ++ ['"'])
      let text := textOf w.joined
      match Arithmetic.value (fun name => (m.parameter? name).getD "") (text.length + 1) text.toList with
      | .ok (n, settings) =>
        (f.addText m.separators (toString n).toList inQuotes,
          settings.foldl (fun m (name, v) => m.assign name (toString v)) m)
      | .error e =>
        let isIllegal := "Illegal".toList.isPrefixOf e.toList
        (f, m.abort (if isIllegal then e else s!"arithmetic expression: {e}: " ++ "\"" ++ text ++ "\"") 2)

def maxNesting : Nat := 20

def expandWord (sub : Substitution) (m : Machine) (w : Word) : Fields × Machine :=
  w.foldl (fun (f, m) p => expandPiece sub maxNesting f m p) ({}, m)

def expandWords (sub : Substitution) (m : Machine) (ws : List Word) : List String × Machine :=
  ws.foldl (fun (done, m) w =>
    let (f, m) := expandWord sub m w
    let namesOf := if m.flags.contains 'f' then fun f => [textOf f] else matchingNames m.files
    (done ++ f.toList.flatMap namesOf, m)) ([], m)

/-- A word as one field, its quoted characters marked. -/
def expandMarks (sub : Substitution) (m : Machine) (w : Word) : List Mark × Machine :=
  let (f, m) := expandWord sub m w
  (f.joined, m)

def expandText (sub : Substitution) (m : Machine) (w : Word) : String × Machine :=
  let (f, m) := expandMarks sub m w
  (textOf f, m)

end CertRotation.Shell
