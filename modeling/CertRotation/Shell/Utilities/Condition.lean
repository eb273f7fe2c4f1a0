import CertRotation.Shell.Machine

/-!
# Conditions

The expressions that `test` and its bracket form decide. Signs bind as they do in logic: negations first, then
conjunctions, then alternatives.
-/
namespace CertRotation.Shell

namespace Condition

inductive Sign where
  | unary
  | binary
  | negation
  | conjunction
  | alternative
  | opening
  | closing
  deriving DecidableEq, Repr

def signs : List (String × Sign) :=
  ["-b", "-c", "-d", "-e", "-f", "-G", "-g", "-h", "-k", "-L", "-n", "-O", "-p", "-r", "-S", "-s", "-t", "-u", "-w", "-x",
    "-z"].map (·, .unary) ++
  ["=", "!=", "<", ">", "-eq", "-ne", "-gt", "-ge", "-lt", "-le", "-nt", "-ot", "-ef"].map (·, .binary) ++
  [("!", .negation), ("-a", .conjunction), ("-o", .alternative), ("(", .opening), (")", .closing)]

/-- What the word at the front is; `none` for an operand. -/
def signAt (ts : List String) : Option Sign :=
  match ts with
  | [] => none
  | t :: rest =>
    let isOperand : Bool := match rest with
      | [] => true
      | [_] => false
      | a :: _ => signs.lookup a = some .binary
    match signs.lookup t with
    | some .unary => if isOperand then none else some .unary
    | some .opening => if rest = [] then none else some .opening
    | s => s

/-! ## Comparisons and files -/

/-- The number that an operand spells; blanks around it do not count. -/
def number (s : String) : Except String Int :=
  let isBlank := fun (c : Char) => c = ' ' || ('\t' ≤ c && c ≤ '\r')
  let cs := (((s.toList.dropWhile isBlank).reverse.dropWhile isBlank).reverse)
  let (isNegative, digits) := match cs with
    | '-' :: rest => (true, rest)
    | '+' :: rest => (false, rest)
    | _ => (false, cs)
  match digits? (String.ofList digits) with
  | some n =>
    if 0x7fffffffffffffff < n then .error s!"Illegal number: {s}" else .ok (if isNegative then -(n : Int) else n)
  | none => .error s!"Illegal number: {s}"

/-- What a test asks of the node that a path leads to. -/
def holdsOf (letter : Char) : Node → Bool
  | .file b mode =>
    match letter with
    | 's' => b ≠ []
    | 'x' => mode &&& 0o111 ≠ 0
    | 'u' => mode &&& 0o4000 ≠ 0
    | 'g' => mode &&& 0o2000 ≠ 0
    | 'k' => mode &&& 0o1000 ≠ 0
    | _ => "eOGfrw".toList.contains letter
  | .directory => "eOGdsrwx".toList.contains letter
  | .link _ => false

def isLink (m : Machine) (path : String) : Bool :=
  match m.files.entryAt path with
  | .error _ => false
  | .ok (directory, name) => m.files.node? (directory ++ [name]) matches some (.link _)

def isDevice (path : String) : Bool := ["/dev/null", "/dev/zero", "/dev/stdin", "/dev/stdout", "/dev/stderr"].contains path

def unary (m : Machine) (operator arg : String) : Bool :=
  match operator.toList with
  | ['-', 'n'] => arg ≠ ""
  | ['-', 'z'] => arg = ""
  | ['-', 't'] => false
  | ['-', 'h'] => isLink m arg
  | ['-', 'L'] => isLink m arg
  | ['-', c] =>
    if isDevice arg then "ecrwOG".toList.contains c
    else
      match m.files.stat arg with
      | .ok (_, n) => holdsOf c n
      | .error _ => false
  | _ => false

def binary (m : Machine) (a operator b : String) : Except String Bool :=
  let numbers := fun (f : Int → Int → Bool) => do return f (← number a) (← number b)
  match operator with
  | "=" => .ok (a = b)
  | "!=" => .ok (a ≠ b)
  | "<" => .ok (a < b)
  | ">" => .ok (b < a)
  | "-eq" => numbers fun x y => x = y
  | "-ne" => numbers fun x y => x ≠ y
  | "-lt" => numbers fun x y => x < y
  | "-le" => numbers fun x y => x ≤ y
  | "-gt" => numbers fun x y => y < x
  | "-ge" => numbers fun x y => y ≤ x
  | "-ef" => .ok (match m.files.stat a, m.files.stat b with
    | .ok (x, _), .ok (y, _) => x = y
    | _, _ => false)
  | _ => .ok false

/-! ## Expressions -/

abbrev Answer := Except String (Bool × List String)

mutual

def alternatives (m : Machine) : (fuel : Nat) → Option Sign → List String → Answer
  | 0, _, ts => .ok (false, ts)
  | fuel + 1, s, ts => do
    let (a, ts) ← conjunctions m fuel s ts
    if signAt (ts.drop 1) = some .alternative then
      let (b, ts) ← alternatives m fuel (signAt (ts.drop 2)) (ts.drop 2)
      pure (a || b, ts)
    else pure (a, ts)

def conjunctions (m : Machine) : (fuel : Nat) → Option Sign → List String → Answer
  | 0, _, ts => .ok (false, ts)
  | fuel + 1, s, ts => do
    let (a, ts) ← negations m fuel s ts
    if signAt (ts.drop 1) = some .conjunction then
      let (b, ts) ← conjunctions m fuel (signAt (ts.drop 2)) (ts.drop 2)
      pure (a && b, ts)
    else pure (a, ts)

def negations (m : Machine) : (fuel : Nat) → Option Sign → List String → Answer
  | 0, _, ts => .ok (false, ts)
  | fuel + 1, s, ts =>
    if s = some .negation then do
      let rest := if ts.length < 2 then ts else ts.drop 1
      let (a, ts) ← if ts.length < 2 then .ok (false, rest) else negations m fuel (signAt rest) rest
      pure (!a, ts)
    else primary m fuel s ts

def primary (m : Machine) : (fuel : Nat) → Option Sign → List String → Answer
  | 0, _, ts => .ok (false, ts)
  | fuel + 1, s, ts =>
    match s, ts with
    | _, [] => .ok (false, [])
    | some .opening, _ :: rest =>
      if signAt rest = some .closing then .ok (false, rest)
      else do
        let (a, ts) ← alternatives m fuel (signAt rest) rest
        if signAt (ts.drop 1) = some .closing then pure (a, ts.drop 1) else throw "closing paren expected"
    | some .unary, operator :: rest =>
      match rest with
      | [] => .error s!"{operator}: argument expected"
      | arg :: _ => .ok (unary m operator arg, rest)
    | _, t :: rest =>
      if signAt rest = some .binary then
        match rest with
        | operator :: arg :: _ => do return (← binary m t operator arg, rest.drop 1)
        | operator :: [] => .error s!"{operator}: argument expected"
        | [] => .ok (t ≠ "", ts)
      else .ok (t ≠ "", ts)

end

/-- What some words say. Three words with a comparison in the middle are one whatever stands around it. -/
def holds (m : Machine) (args : List String) : Except String Bool := do
  let size := args.length
  let fuel := 5 * size + 5
  let isComparison := size = 3 && args[1]?.any fun s => signs.lookup s = some .binary
  let isBetween := args.head? = some "(" && args.getLast? = some ")"
  let (ts, s) :=
    if isComparison then (args, none)
    else if (size = 3 ∨ size = 4) ∧ isBetween then ((args.drop 1).dropLast, signAt (args.drop 1).dropLast)
    else if (size = 3 ∨ size = 4) ∧ args.head? = some "!" then (args, some .negation)
    else (args, signAt args)
  let (a, rest) ← alternatives m fuel s ts
  match rest with
  | last :: _ :: _ => throw s!"{last}: unexpected operator"
  | _ => pure a

end Condition

/-- Decide the words under a name for complaints. -/
def test (name : String) (args : List String) (m : Machine) : Machine :=
  match Condition.holds m args with
  | .ok b => m.ended (if b then 0 else 1)
  | .error e => m.refuse s!"{name}: {e}" 2

def bracket (args : List String) (m : Machine) : Machine :=
  if args.getLast? = some "]" then test "[" args.dropLast m else m.refuse "[: missing ]" 2

end CertRotation.Shell
