/-!
# Shell arithmetic

Expressions over integers of 64 bits, which wrap around. Names stand for the values of variables.
-/
namespace CertRotation.Shell.Arithmetic

/-- Signs with how strongly they bind; longer signs come before their beginnings. -/
def operators : List (String × Nat) :=
  [("||", 1), ("&&", 2), ("==", 6), ("!=", 6), ("<=", 7), (">=", 7), ("<<", 8), (">>", 8), ("|", 3), ("^", 4), ("&", 5),
   ("<", 7), (">", 7), ("+", 9), ("-", 9), ("*", 10), ("/", 10), ("%", 10)]

/-- The number of 64 bits that is congruent to `n`. -/
def wrap (n : Int) : Int := Int.bmod n 0x10000000000000000

def ofBool (b : Bool) : Int := if b then 1 else 0

/-- Combine the two's complements of two numbers. -/
def bitwise (f : Nat → Nat → Nat) (a b : Int) : Int :=
  wrap (f (a % 0x10000000000000000).toNat (b % 0x10000000000000000).toNat)

def apply (sign : String) (a b : Int) : Except String Int :=
  match sign with
  | "||" => .ok (ofBool (a ≠ 0 || b ≠ 0))
  | "&&" => .ok (ofBool (a ≠ 0 && b ≠ 0))
  | "|" => .ok (bitwise (· ||| ·) a b)
  | "^" => .ok (bitwise (· ^^^ ·) a b)
  | "&" => .ok (bitwise (· &&& ·) a b)
  | "==" => .ok (ofBool (a = b))
  | "!=" => .ok (ofBool (a ≠ b))
  | "<=" => .ok (ofBool (a ≤ b))
  | ">=" => .ok (ofBool (b ≤ a))
  | "<" => .ok (ofBool (a < b))
  | ">" => .ok (ofBool (b < a))
  | "<<" => .ok (wrap (a * (1 <<< (b % 64).toNat : Nat)))
  | ">>" => .ok (a >>> (b % 64).toNat)
  | "+" => .ok (wrap (a + b))
  | "-" => .ok (wrap (a - b))
  | "*" => .ok (wrap (a * b))
  | "/" => if b = 0 then .error "division by zero" else .ok (wrap (Int.tdiv a b))
  | _ => if b = 0 then .error "division by zero" else .ok (Int.tmod a b)

def skipBlanks (cs : List Char) : List Char := cs.dropWhile fun c => c = ' ' || c = '\t' || c = '\n'

def isNameChar (c : Char) : Bool := c.isAlphanum || c = '_'

def digitValue (c : Char) : Nat :=
  if c.isDigit then c.toNat - '0'.toNat else c.toLower.toNat - 'a'.toNat + 10

/-- The number at the front: hexadecimal after `0x`, octal after a zero, else decimal. -/
def number (cs : List Char) : Int × List Char :=
  let inBase := fun (base : Nat) (here : List Char) =>
    let digits := here.takeWhile fun c => c.isAlphanum && digitValue c < base
    (((digits.foldl (fun n c => base * n + digitValue c) 0 : Nat) : Int), here.drop digits.length)
  match cs with
  | '0' :: 'x' :: rest => inBase 16 rest
  | '0' :: 'X' :: rest => inBase 16 rest
  | '0' :: _ => inBase 8 cs
  | _ => inBase 10 cs

/-- The number that the value of a variable spells; nothing counts for zero. -/
def ofValue (s : String) : Except String Int :=
  let (isNegative, digits) := match s.toList with
    | '-' :: rest => (true, rest)
    | '+' :: rest => (false, rest)
    | cs => (false, cs)
  match digits.head?.any Char.isDigit, number digits with
  | true, (n, []) => .ok (if isNegative then -n else n)
  | _, _ => if s = "" then .ok 0 else .error s!"Illegal number: {s}"

mutual

/-- A number, a variable, a sign before an operand or an expression in parentheses. -/
def operand (lookup : String → String) : (fuel : Nat) → List Char → Except String (Int × List Char)
  | 0, _ => .error "expecting primary"
  | fuel + 1, cs =>
    match skipBlanks cs with
    | '-' :: rest => do
      let (n, after) ← operand lookup fuel rest
      pure (wrap (-n), after)
    | '+' :: rest => operand lookup fuel rest
    | '!' :: rest => do
      let (n, after) ← operand lookup fuel rest
      pure (ofBool (n = 0), after)
    | '~' :: rest => do
      let (n, after) ← operand lookup fuel rest
      pure (-n - 1, after)
    | '(' :: rest => do
      let (n, after) ← conditional lookup fuel rest
      match skipBlanks after with
      | ')' :: more => pure (n, more)
      | _ => throw "expecting ')'"
    | here =>
      match here.takeWhile isNameChar with
      | [] => .error "expecting primary"
      | c :: cs =>
        if c.isDigit then .ok (number here)
        else do
          let n ← ofValue (lookup (String.ofList (c :: cs)))
          pure (n, here.drop (cs.length + 1))

/-- Operands joined by operators that bind at least as strongly as `strength`. -/
def joined (lookup : String → String) : (fuel strength : Nat) → List Char → Except String (Int × List Char)
  | 0, _, _ => .error "expecting primary"
  | fuel + 1, strength, cs => do
    let (n, rest) ← operand lookup fuel cs
    continued lookup fuel strength n rest

def continued (lookup : String → String) :
    (fuel strength : Nat) → Int → List Char → Except String (Int × List Char)
  | 0, _, n, cs => .ok (n, cs)
  | fuel + 1, strength, n, cs =>
    let here := skipBlanks cs
    match operators.find? fun (sign, _) => sign.toList.isPrefixOf here with
    | none => .ok (n, here)
    | some (sign, s) =>
      if s < strength then .ok (n, here)
      else do
        let (k, after) ← joined lookup fuel (s + 1) (here.drop sign.length)
        continued lookup fuel strength (← apply sign n k) after

/-- An expression, perhaps with a choice between two. -/
def conditional (lookup : String → String) : (fuel : Nat) → List Char → Except String (Int × List Char)
  | 0, _ => .error "expecting primary"
  | fuel + 1, cs => do
    let (n, rest) ← joined lookup fuel 1 cs
    match skipBlanks rest with
    | '?' :: more =>
      let (yes, after) ← conditional lookup fuel more
      match skipBlanks after with
      | ':' :: others =>
        let (no, final) ← conditional lookup fuel others
        pure (if n ≠ 0 then yes else no, final)
      | _ => throw "expecting ':'"
    | here => pure (n, here)

end

/-- The value of an expression that assigns nothing. An empty one is zero. -/
def plainValue (lookup : String → String) (cs : List Char) : Except String Int :=
  if skipBlanks cs = [] then .ok 0
  else do
    match ← conditional lookup (4 * cs.length + 8) cs with
    | (n, []) => pure n
    | _ => throw "expecting EOF"

/-- The variable that an expression assigns to, the operator before the equals sign, and what follows it. -/
def assignment? (cs : List Char) : Option (String × String × List Char) :=
  let here := skipBlanks cs
  let name := here.takeWhile isNameChar
  let rest := skipBlanks (here.drop name.length)
  if name.head?.all Char.isDigit then none
  else
    ("" :: ["+", "-", "*", "/", "%", "<<", ">>", "&", "^", "|"]).findSome? fun sign =>
      if (sign ++ "=").toList.isPrefixOf rest then
        let after := rest.drop (sign.length + 1)
        if after.head? = some '=' then none else some (String.ofList name, sign, after)
      else none

def value (lookup : String → String) : (fuel : Nat) → List Char → Except String (Int × List (String × Int))
  | 0, _ => .error "expecting primary"
  | fuel + 1, cs =>
    match assignment? cs with
    | none => (plainValue lookup cs).map (·, [])
    | some (name, sign, rest) => do
      if skipBlanks rest = [] then throw "expecting primary"
      let (n, settings) ← value lookup fuel rest
      let v ← if sign = "" then pure n else apply sign (← ofValue (lookup name)) n
      pure (v, settings ++ [(name, v)])

end CertRotation.Shell.Arithmetic
