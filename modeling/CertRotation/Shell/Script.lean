import CertRotation.Shell.Word

/-!
# Shell scripts

The commands that a script consists of, and how they are read from its tokens.
-/
namespace CertRotation.Shell

structure Redirection where
  stream : Nat
  sign : String
  target : Word
  deriving Repr

inductive Command where
  | skip
  /-- Assignments, then words, the first of which names what to run. -/
  | simple (line : Nat) (assignments : List (String × Word)) (words : List Word)
  | redirected (c : Command) (rs : List Redirection)
  | pipe (a b : Command)
  | negated (c : Command)
  | both (a b : Command)
  | either (a b : Command)
  | sequence (a b : Command)
  | background (c : Command)
  | subshell (c : Command)
  | choice (test yes no : Command)
  /-- Repeat `body` as long as `test` comes out as `wanted`. -/
  | loop (wanted : Bool) (test body : Command)
  | each (name : String) (words : Option (List Word)) (body : Command)
  | select (subject : Word) (branches : List (List Word × Command))
  | define (name : String) (body : Command)
  deriving Repr

/-! ## Reading -/

/-- The rest of the tokens, and the line that they start in. -/
structure Cursor where
  rest : List Token
  line : Nat := 1

abbrev Reader (α : Type) := Cursor → Except String (α × Cursor)

def Cursor.next (c : Cursor) : Cursor :=
  match c.rest with
  | .lineEnd :: rest => ⟨rest, c.line + 1⟩
  | _ :: rest => ⟨rest, c.line⟩
  | [] => c

/-- The operator or the word without quotes at the front. -/
def Cursor.sign? (c : Cursor) : Option String :=
  match c.rest with
  | .operator t :: _ => some t
  | .word w :: _ => plainText? w
  | _ => none

def unexpected (c : Cursor) (expecting : String) : String :=
  let what := match c.rest, c.sign? with
    | [], _ => "end of file"
    | .word _ :: _, some t =>
      if ["then", "else", "elif", "fi", "do", "done", "esac", "\x7d"].contains t then s!"\"{t}\"" else "word"
    | t :: _, _ => t.text
  if expecting = "" then s!"{what} unexpected" else s!"{what} unexpected (expecting \"{expecting}\")"

def expect (t : String) : Reader Unit := fun c =>
  if c.sign? = some t then .ok ((), c.next) else .error (unexpected c t)

def skipLines : (fuel : Nat) → Cursor → Cursor
  | 0, c => c
  | fuel + 1, c =>
    match c.rest with
    | .lineEnd :: _ => skipLines fuel c.next
    | _ => c

def Cursor.skipLines (c : Cursor) : Cursor := Shell.skipLines c.rest.length c

/-- Words that end a list of commands where a command could start. -/
def closers : List String := ["then", "else", "elif", "fi", "do", "done", "esac", "\x7d", ")", ";;"]

def assignment? (w : Word) : Option (String × Word) :=
  let name := w.takeWhile fun p => p.plain?.any (· ≠ '=')
  match plainText? name, w.drop name.length with
  | some n, .plain '=' :: value =>
    match n.toList with
    | c :: rest => if isNameStart c && rest.all isNameChar then some (n, value) else none
    | [] => none
  | _, _ => none

def redirectionsFrom : (fuel : Nat) → Reader (List Redirection)
  | 0, c => .ok ([], c)
  | fuel + 1, c =>
    match c.rest with
    | .redirection stream sign :: .word target :: rest => do
      let (rs, after) ← redirectionsFrom fuel ⟨rest, c.line⟩
      let standard := if sign.toList.head? = some '<' then 0 else 1
      pure (⟨stream.getD standard, sign, target⟩ :: rs, after)
    | .redirection .. :: _ => .error (unexpected c.next "")
    | _ => .ok ([], c)

def simpleFrom : (fuel : Nat) → Reader (List (String × Word) × List Word × List Redirection)
  | 0, c => .ok (([], [], []), c)
  | fuel + 1, c =>
    match c.rest with
    | .word w :: rest => do
      let ((assignments, words, rs), after) ← simpleFrom fuel ⟨rest, c.line⟩
      pure ((assignments, w :: words, rs), after)
    | .redirection .. :: _ => do
      let (first, more) ← redirectionsFrom 1 c
      let ((assignments, words, rs), after) ← simpleFrom fuel more
      pure ((assignments, words, first ++ rs), after)
    | _ => .ok (([], [], []), c)

def splitAssignments : List Word → List (String × Word) × List Word
  | [] => ([], [])
  | w :: rest =>
    match assignment? w with
    | some a =>
      let (assignments, words) := splitAssignments rest
      (a :: assignments, words)
    | none => ([], w :: rest)

def patterns : (fuel : Nat) → Reader (List Word)
  | 0, c => .error (unexpected c ")")
  | fuel + 1, c =>
    match c.rest with
    | .word w :: .operator "|" :: rest => do
      let (ws, after) ← patterns fuel ⟨rest, c.line⟩
      pure (w :: ws, after)
    | .word w :: .operator ")" :: rest => .ok ([w], ⟨rest, c.line⟩)
    | _ => .error (unexpected c ")")

/-- The words of a loop up to the end of the line. -/
def wordsFrom : List Token → List Word × List Token
  | .word w :: rest =>
    let (ws, after) := wordsFrom rest
    (w :: ws, after)
  | rest => ([], rest)

/-- A separator between commands may be missing before `do` and its like. -/
def Cursor.skipSeparator (c : Cursor) : Cursor := (if c.sign? = some ";" then c.next else c).skipLines

mutual

def list : (fuel : Nat) → Reader Command
  | 0, c => .error (unexpected c "")
  | fuel + 1, c0 => do
    let c := c0.skipLines
    if c.rest = [] ∨ c.sign?.any closers.contains then return (.skip, c)
    let (first, after) ← andOr fuel c
    match after.rest with
    | .operator ";" :: _ =>
      let (others, final) ← list fuel after.next
      return (.sequence first others, final)
    | .operator "&" :: _ =>
      let (others, final) ← list fuel after.next
      return (.sequence (.background first) others, final)
    | .lineEnd :: _ =>
      let (others, final) ← list fuel after
      return (.sequence first others, final)
    | _ => return (first, after)

def andOr : (fuel : Nat) → Reader Command
  | 0, c => .error (unexpected c "")
  | fuel + 1, c => do
    let (first, after) ← pipeline fuel c
    andOrRest fuel first after

def andOrRest : (fuel : Nat) → Command → Reader Command
  | 0, _, c => .error (unexpected c "")
  | fuel + 1, first, c =>
    match c.rest with
    | .operator "&&" :: _ => do
      let (second, after) ← pipeline fuel c.next.skipLines
      andOrRest fuel (.both first second) after
    | .operator "||" :: _ => do
      let (second, after) ← pipeline fuel c.next.skipLines
      andOrRest fuel (.either first second) after
    | _ => .ok (first, c)

def pipeline : (fuel : Nat) → Reader Command
  | 0, c => .error (unexpected c "")
  | fuel + 1, c => do
    if c.sign? = some "!" then
      let (inner, after) ← pipeline fuel c.next
      return (.negated inner, after)
    let (first, after) ← command fuel c
    match after.rest with
    | .operator "|" :: _ =>
      let (second, final) ← pipeline fuel after.next.skipLines
      return (.pipe first second, final)
    | _ => return (first, after)

def command : (fuel : Nat) → Reader Command
  | 0, c => .error (unexpected c "")
  | fuel + 1, c => do
    match c.rest, c.sign? with
    | .operator "(" :: _, _ =>
      let (body, after) ← list fuel c.next
      let ((), more) ← expect ")" after
      withRedirections (.subshell body) more
    | .word _ :: _, some "\x7b" =>
      let (body, after) ← list fuel c.next
      let ((), more) ← expect "\x7d" after
      withRedirections body more
    | .word _ :: _, some "if" =>
      let (body, after) ← conditional fuel c.next
      withRedirections body after
    | .word _ :: _, some "while" => repetition fuel true c.next
    | .word _ :: _, some "until" => repetition fuel false c.next
    | .word _ :: .word name :: rest, some "for" =>
      let after : Cursor := ⟨rest, c.line⟩
      let (words, here) :=
        if after.skipLines.sign? = some "in" then
          let (ws, more) := wordsFrom after.skipLines.next.rest
          (some ws, (⟨more, after.skipLines.line⟩ : Cursor))
        else (none, after)
      let ((), start) ← expect "do" here.skipSeparator
      let (body, final) ← list fuel start
      let ((), more) ← expect "done" final
      withRedirections (.each ((plainText? name).getD "") words body) more
    | .word _ :: .word subject :: rest, some "case" =>
      let ((), start) ← expect "in" (Cursor.skipLines ⟨rest, c.line⟩)
      let (branches, after) ← branchesFrom fuel start.skipLines
      withRedirections (.select subject branches) after
    | .word name :: .operator "(" :: .operator ")" :: rest, _ =>
      let (body, after) ← command fuel (Cursor.skipLines ⟨rest, c.line⟩)
      return (.define ((plainText? name).getD "") body, after)
    | _, sign =>
      if sign = some "for" then throw "Bad for loop variable"
      if sign = some "case" then throw (unexpected c.next "" ++ " (expecting word)")
      if (c.rest.head?.any fun t => t matches .word _) && sign.any closers.contains then throw (unexpected c "")
      let ((_, words, rs), after) ← simpleFrom (c.rest.length + 1) c
      if words = [] ∧ rs.isEmpty then throw (unexpected c "")
      let (assignments, arguments) := splitAssignments words
      let body := Command.simple c.line assignments arguments
      return (if rs.isEmpty then body else .redirected body rs, after)

def withRedirections (body : Command) : Reader Command := fun c => do
  let (rs, after) ← redirectionsFrom (c.rest.length + 1) c
  return (if rs.isEmpty then body else .redirected body rs, after)

/-- What follows `if` or `elif`. -/
def conditional : (fuel : Nat) → Reader Command
  | 0, c => .error (unexpected c "fi")
  | fuel + 1, c => do
    let (test, c1) ← list fuel c
    let ((), c2) ← expect "then" c1
    let (yes, c3) ← list fuel c2
    if c3.sign? = some "elif" then
      let (no, c4) ← conditional fuel c3.next
      return (.choice test yes no, c4)
    if c3.sign? = some "else" then
      let (no, c4) ← list fuel c3.next
      let ((), c5) ← expect "fi" c4
      return (.choice test yes no, c5)
    let ((), c4) ← expect "fi" c3
    return (.choice test yes .skip, c4)

def repetition : (fuel : Nat) → Bool → Reader Command
  | 0, _, c => .error (unexpected c "done")
  | fuel + 1, wanted, c => do
    let (test, c1) ← list fuel c
    let ((), c2) ← expect "do" c1
    let (body, c3) ← list fuel c2
    let ((), c4) ← expect "done" c3
    withRedirections (.loop wanted test body) c4

def branchesFrom : (fuel : Nat) → Reader (List (List Word × Command))
  | 0, c => .error (unexpected c "esac")
  | fuel + 1, c => do
    if c.sign? = some "esac" then return ([], c.next)
    let start := if c.sign? = some "(" then c.next else c
    let (ws, c1) ← patterns (start.rest.length + 1) start
    let (body, c2) ← list fuel c1
    if c2.sign? = some ";;" then
      let (others, final) ← branchesFrom fuel c2.next.skipLines
      return ((ws, body) :: others, final)
    let ((), final) ← expect "esac" c2
    return ([(ws, body)], final)

end

def parse (script : List Char) : Except String Command := do
  let ts ← tokens script
  let (c, after) ← list (8 * ts.length + 8) ⟨ts, 1⟩
  if after.rest = [] then return c else throw (unexpected after "")

end CertRotation.Shell
