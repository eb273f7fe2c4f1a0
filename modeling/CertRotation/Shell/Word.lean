/-!
# Words and tokens of shell scripts

A script is cut into tokens. A word keeps its quoting and its expansions as pieces, which are filled in only when a
command is run.
-/
namespace CertRotation.Shell

/-- A part of a word. What stands in double quotes is expanded but not split into fields. -/
inductive Piece where
  | plain (c : Char)
  | quoted (s : List Char)
  | parameter (text : List Char) (inQuotes : Bool)
  /-- The output of a script. -/
  | output (script : List Char) (inQuotes : Bool)
  | arithmetic (expression : List Char) (inQuotes : Bool)
  deriving DecidableEq, Repr

abbrev Word := List Piece

def Piece.plain? : Piece → Option Char
  | plain c => some c
  | _ => none

def plainText? (w : Word) : Option String := (w.mapM Piece.plain?).map String.ofList

inductive Token where
  | word (w : Word)
  | operator (text : String)
  /-- `text` says how, the number which stream. -/
  | redirection (stream : Option Nat) (text : String)
  | lineEnd
  deriving DecidableEq, Repr

def Token.text : Token → String
  | word _ => "word"
  | operator t => s!"\"{t}\""
  | redirection .. => "redirection"
  | lineEnd => "newline"

def isNameStart (c : Char) : Bool := c.isAlpha || c = '_'

def isNameChar (c : Char) : Bool := c.isAlphanum || c = '_'

/-- Parameters with names that are no identifiers. -/
def isSpecial (c : Char) : Bool := c.isDigit || "?$#@*!-".toList.contains c

/-- The text up to the parenthesis that brings the depth to zero, and what follows. Quoted parentheses do not count. -/
def untilClosed (quote : Option Char) (depth : Nat) : List Char → Option (List Char × List Char)
  | [] => none
  | '\\' :: c :: rest =>
    if quote = some '\'' then
      (untilClosed quote depth (c :: rest)).map fun (s, after) => ('\\' :: s, after)
    else (untilClosed quote depth rest).map fun (s, after) => ('\\' :: c :: s, after)
  | c :: rest =>
    if quote = none ∧ c = ')' ∧ depth ≤ 1 then some ([], rest)
    else
      let inner := match quote with
        | some q => if c = q then none else some q
        | none => if c = '\'' ∨ c = '"' then some c else none
      let deeper := if quote ≠ none then depth
        else if c = '(' then depth + 1 else if c = ')' then depth - 1 else depth
      (untilClosed inner deeper rest).map fun (s, after) => (c :: s, after)

/-- The text up to a character, which a backslash in front takes the meaning from. -/
def untilUnescaped (stop : Char) : List Char → Option (List Char × List Char)
  | [] => none
  | '\\' :: c :: rest => (untilUnescaped stop rest).map fun (s, after) => ('\\' :: c :: s, after)
  | c :: rest => if c = stop then some ([], rest) else (untilUnescaped stop rest).map fun (s, after) => (c :: s, after)

/-- Take the backslashes away that only protect from back quotes. -/
def unescapeBackquoted : List Char → List Char
  | '\\' :: c :: rest =>
    if c = '\\' ∨ c = '$' ∨ c = '\x60' then c :: unescapeBackquoted rest else '\\' :: c :: unescapeBackquoted rest
  | c :: rest => c :: unescapeBackquoted rest
  | [] => []

def unterminated : String := "Unterminated quoted string"

def dollar (inQuotes : Bool) (cs : List Char) : Except String (Piece × List Char) :=
  match cs with
  | '(' :: '(' :: rest =>
    match untilClosed none 2 rest with
    | some (s, after) => .ok (.arithmetic s.dropLast inQuotes, after)
    | none => .error "Missing '))'"
  | '(' :: rest =>
    match untilClosed none 1 rest with
    | some (s, after) => .ok (.output s inQuotes, after)
    | none => .error "end of file unexpected (expecting \")\")"
  | '\x7b' :: rest =>
    match untilUnescaped '\x7d' rest with
    | some (s, after) => .ok (.parameter s inQuotes, after)
    | none => .error "Missing '\x7d'"
  | c :: rest =>
    if isNameStart c then .ok (.parameter (cs.takeWhile isNameChar) inQuotes, cs.dropWhile isNameChar)
    else if isSpecial c then .ok (.parameter [c] inQuotes, rest)
    else .ok (.quoted ['$'], cs)
  | [] => .ok (.quoted ['$'], [])

def backquoted (inQuotes : Bool) (cs : List Char) : Except String (Piece × List Char) :=
  match untilUnescaped '\x60' cs with
  | some (s, after) => .ok (.output (unescapeBackquoted s) inQuotes, after)
  | none => .error "EOF in backquote substitution"

def doubleQuoted : (fuel : Nat) → List Char → Except String (Word × List Char)
  | 0, _ => .error unterminated
  | fuel + 1, cs =>
    match cs with
    | [] => .error unterminated
    | '"' :: rest => .ok ([], rest)
    | '\\' :: '\n' :: rest => doubleQuoted fuel rest
    | '\\' :: c :: rest => do
      let (w, after) ← doubleQuoted fuel rest
      let s := if c = '$' ∨ c = '\x60' ∨ c = '"' ∨ c = '\\' then [c] else ['\\', c]
      pure (.quoted s :: w, after)
    | '$' :: rest => do
      let (p, more) ← dollar true rest
      let (w, after) ← doubleQuoted fuel more
      pure (p :: w, after)
    | '\x60' :: rest => do
      let (p, more) ← backquoted true rest
      let (w, after) ← doubleQuoted fuel more
      pure (p :: w, after)
    | c :: rest => do
      let (w, after) ← doubleQuoted fuel rest
      pure (.quoted [c] :: w, after)

/-- The text that stands for itself between double quotes. -/
def protectQuotes : List Char → List Char
  | '\\' :: '"' :: rest => '\\' :: '\\' :: '\\' :: '"' :: protectQuotes rest
  | '\\' :: c :: rest => '\\' :: c :: protectQuotes rest
  | '"' :: rest => '\\' :: '"' :: protectQuotes rest
  | c :: rest => c :: protectQuotes rest
  | [] => []

def isMeta (c : Char) : Bool := " \t\n;&|<>()".toList.contains c

def word : (fuel : Nat) → List Char → Except String (Word × List Char)
  | 0, cs => .ok ([], cs)
  | fuel + 1, cs =>
    match cs with
    | [] => .ok ([], [])
    | '\\' :: '\n' :: rest => word fuel rest
    | '\\' :: c :: rest => do
      let (w, after) ← word fuel rest
      pure (.quoted [c] :: w, after)
    | '\'' :: rest => do
      let s := rest.takeWhile (· ≠ '\'')
      match rest.dropWhile (· ≠ '\'') with
      | _ :: more =>
        let (w, after) ← word fuel more
        pure (.quoted s :: w, after)
      | [] => throw unterminated
    | '"' :: rest => do
      let (q, more) ← doubleQuoted (rest.length + 1) rest
      let (w, after) ← word fuel more
      pure (.quoted [] :: q ++ w, after)
    | '$' :: rest => do
      let (p, more) ← dollar false rest
      let (w, after) ← word fuel more
      pure (p :: w, after)
    | '\x60' :: rest => do
      let (p, more) ← backquoted false rest
      let (w, after) ← word fuel more
      pure (p :: w, after)
    | c :: rest =>
      if isMeta c then .ok ([], cs)
      else do
        let (w, after) ← word fuel rest
        pure (.plain c :: w, after)

/-- The signs that are operators, longer ones first. -/
def operators : List String := ["&&", "||", ";;", ";", "&", "|", "(", ")"]

def redirections : List String := ["<<-", "<<", ">>", ">&", "<&", ">|", "<>", ">", "<"]

def signAt? (signs : List String) (cs : List Char) : Option (String × List Char) :=
  (signs.find? fun s => s.toList.isPrefixOf cs).map fun s => (s, cs.drop s.length)

/-- A redirection, perhaps with the number of a stream in front. -/
def redirectionAt? (cs : List Char) : Option (Token × List Char) :=
  let digits := cs.takeWhile Char.isDigit
  (signAt? redirections (cs.drop digits.length)).map fun (sign, rest) =>
    (.redirection (String.ofList digits).toNat? sign, rest)

/-! ## Texts within scripts -/

/-- The lines up to one that reads `stop`, and what follows it. Tabs in front of lines are dropped if `trim` says so. -/
def linesUntil (stop : List Char) (trim : Bool) : (fuel : Nat) → List Char → List Char × List Char
  | 0, cs => ([], cs)
  | fuel + 1, cs =>
    if cs = [] then ([], [])
    else
      let line := cs.takeWhile (· ≠ '\n')
      let rest := cs.drop (line.length + 1)
      let line := if trim then line.dropWhile (· = '\t') else line
      if line = stop then ([], rest)
      else
        let (body, after) := linesUntil stop trim fuel rest
        (line ++ '\n' :: body, after)

/-- The characters of a word without their quotes. -/
def Piece.literal : Piece → List Char
  | plain c => [c]
  | quoted s => s
  | _ => []

/-- The text that a redirection takes from the lines below, and the script without these lines. -/
def inlineText (trim : Bool) (cs : List Char) : Except String (Word × List Char) := do
  let (stop, rest) ← word (cs.length + 1) (cs.dropWhile fun c => c = ' ' || c = '\t')
  let line := rest.takeWhile (· ≠ '\n')
  let (body, after) := linesUntil (stop.flatMap Piece.literal) trim cs.length (rest.drop (line.length + 1))
  let text ← if stop.all (·.plain?.isSome) then (doubleQuoted (2 * body.length + 2) (protectQuotes body ++ ['"'])).map (·.1)
    else pure [.quoted body]
  pure (.quoted [] :: text, line ++ '\n' :: after)

def tokensFrom : (fuel : Nat) → List Char → Except String (List Token)
  | 0, _ => .ok []
  | fuel + 1, cs =>
    match cs with
    | [] => .ok []
    | ' ' :: rest => tokensFrom fuel rest
    | '\t' :: rest => tokensFrom fuel rest
    | '\\' :: '\n' :: rest => tokensFrom fuel rest
    | '\n' :: rest => do return .lineEnd :: (← tokensFrom fuel rest)
    | '#' :: rest => tokensFrom fuel (rest.dropWhile (· ≠ '\n'))
    | _ =>
      match redirectionAt? cs, signAt? operators cs with
      | some (.redirection stream "<<", rest), _ => do
        let (w, more) ← inlineText false rest
        return .redirection stream "<<" :: .word w :: (← tokensFrom fuel more)
      | some (.redirection stream "<<-", rest), _ => do
        let (w, more) ← inlineText true rest
        return .redirection stream "<<" :: .word w :: (← tokensFrom fuel more)
      | some (t, rest), _ => do return t :: (← tokensFrom fuel rest)
      | none, some (sign, rest) => do return .operator sign :: (← tokensFrom fuel rest)
      | none, none => do
        let (w, rest) ← word (cs.length + 1) cs
        return .word w :: (← tokensFrom fuel rest)

def tokens (script : List Char) : Except String (List Token) := tokensFrom (script.length + 1) script

end CertRotation.Shell
