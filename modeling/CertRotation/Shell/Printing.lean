import CertRotation.Shell.Machine

/-!
# Printing utilities

`echo` in the two usual manners, and `printf`.
-/
namespace CertRotation.Shell

def isOctal (c : Char) : Bool := '0' ≤ c && c ≤ '7'

def octalValue (digits : List Char) : Nat := digits.foldl (fun n c => 8 * n + (c.toNat - 48)) 0

def ofChars (cs : List Char) : Bytes := Bytes.ofString (String.ofList cs)

def letterEscape? : Char → Option UInt8
  | 'a' => some 7
  | 'b' => some 8
  | 't' => some 9
  | 'n' => some 10
  | 'v' => some 11
  | 'f' => some 12
  | 'r' => some 13
  | 'e' => some 27
  | '\\' => some 92
  | _ => none

/-- What an escape after a backslash stands for, and how many characters it has. With `zeroFirst` up to three octal
digits may follow a zero. -/
def escapeOctets (zeroFirst : Bool) (cs : List Char) : Bytes × Nat :=
  match cs with
  | [] => ([92], 0)
  | c :: rest =>
    match letterEscape? c with
    | some x => ([x], 1)
    | none =>
      let extra := if zeroFirst && c = '0' then 1 else 0
      let digits := (((c :: rest).drop extra).takeWhile isOctal).take 3
      if isOctal c then ([UInt8.ofNat (octalValue digits)], extra + digits.length)
      else (ofChars ['\\', c], 1)

/-- Text with its escapes filled in, and whether it goes on after that. -/
def fillEscapes : (skip : Nat) → List Char → Bytes × Bool
  | _, [] => ([], true)
  | skip + 1, _ :: rest => fillEscapes skip rest
  | 0, '\\' :: 'c' :: _ => ([], false)
  | 0, '\\' :: rest =>
    let (b, size) := escapeOctets true rest
    let (more, goesOn) := fillEscapes size rest
    (b ++ more, goesOn)
  | 0, c :: rest =>
    let (more, goesOn) := fillEscapes 0 rest
    (ofChars [c] ++ more, goesOn)

/-- Print words with escapes; the option `-n` leaves the line open. -/
def echo (args : List String) (m : Machine) : Machine :=
  let (isOpen, words) := match args with
    | "-n" :: rest => (true, rest)
    | _ => (false, args)
  let (b, goesOn) := fillEscapes 0 (" ".intercalate words).toList
  (m.emit 1 (if isOpen || !goesOn then b else b ++ [10])).ended 0

/-- Options of the stand-alone `echo`: whether the line stays open, whether there are escapes, and the words. -/
def echoOptions (isOpen hasEscapes : Bool) : List String → Bool × Bool × List String
  | [] => (isOpen, hasEscapes, [])
  | w :: rest =>
    match w.toList with
    | '-' :: letters =>
      if letters ≠ [] ∧ letters.all (fun c => c = 'n' || c = 'e' || c = 'E') then
        let escapes := match (letters.reverse.find? (· ≠ 'n')) with
          | some c => c = 'e'
          | none => hasEscapes
        echoOptions (isOpen || letters.contains 'n') escapes rest
      else (isOpen, hasEscapes, w :: rest)
    | _ => (isOpen, hasEscapes, w :: rest)

def standAloneEcho (args : List String) (m : Machine) : Machine :=
  let (isOpen, hasEscapes, words) := echoOptions false false args
  let text := (" ".intercalate words).toList
  let (b, goesOn) := if hasEscapes then fillEscapes 0 text else (ofChars text, true)
  (m.emit 1 (if isOpen || !goesOn then b else b ++ [10])).ended 0

/-! ## Formats -/

/-- How wide or how precise a field is: a number, or the next argument. -/
inductive Extent where
  | fixed (n : Option Nat)
  | fromArgument
  deriving DecidableEq, Repr

inductive FormatPart where
  | octets (b : Bytes)
  | field (flags : List Char) (width precision : Extent) (conversion : Char)
  /-- A mistake, which ends the command. -/
  | mistake (message : String)
  deriving Repr

def extentAt (missing : Option Nat) (cs : List Char) : Extent × List Char :=
  match cs with
  | '*' :: rest => (.fromArgument, rest)
  | _ =>
    let digits := cs.takeWhile Char.isDigit
    (.fixed ((digits? (String.ofList digits)).orElse fun _ => missing), cs.drop digits.length)

def formatParts : (fuel : Nat) → List Char → List FormatPart
  | 0, _ => []
  | fuel + 1, cs =>
    match cs with
    | [] => []
    | '\\' :: rest =>
      match rest with
      | '"' :: more => .octets [34] :: formatParts fuel more
      | _ =>
        let (b, size) := escapeOctets false rest
        .octets b :: formatParts fuel (rest.drop size)
    | '%' :: '%' :: rest => .octets [37] :: formatParts fuel rest
    | '%' :: rest =>
      let flags := rest.takeWhile fun c => "-0+ #".toList.contains c
      let (width, r2) := extentAt none (rest.drop flags.length)
      let (precision, r3) := match r2 with
        | '.' :: more => extentAt (some 0) more
        | _ => (.fixed none, r2)
      match r3 with
      | c :: more =>
        if "sbcdiouxX".toList.contains c then .field flags width precision c :: formatParts fuel more
        else
          let directive := String.ofList ('%' :: rest.take (rest.length - more.length))
          [.mistake s!"{directive}: invalid directive"]
      | [] => [.mistake "missing format character"]
    | c :: rest => .octets (ofChars [c]) :: formatParts fuel rest

def padded (flags : List Char) (width : Option Nat) (b : Bytes) : Bytes :=
  let missing := List.replicate (width.getD 0 - b.length) 32
  if flags.contains '-' then b ++ missing else missing ++ b

/-- A number with its sign, filled up with zeros if the flags say so. -/
def paddedNumber (flags : List Char) (width precision : Option Nat) (sign : String) (digits : String) : Bytes :=
  let digits := if precision = some 0 ∧ digits = "0" then "" else digits
  let wanted := match precision with
    | some p => p
    | none => if flags.contains '0' && !flags.contains '-' then width.getD 0 - sign.length else 0
  let zeros := String.ofList (List.replicate (wanted - digits.length) '0')
  padded flags width (Bytes.ofString (sign ++ zeros ++ digits))

/-- A number with a base in front of it: after a zero octal, after `0x` hexadecimal. -/
def leadingNatural (cs : List Char) : Nat × List Char :=
  let value := fun (base : Nat) (digits : List Char) =>
    digits.foldl (fun n c => base * n + (if c.isDigit then c.toNat - 48 else c.toLower.toNat - 87)) 0
  let isHex := fun (c : Char) => c.isDigit || ('a' ≤ c.toLower && c.toLower ≤ 'f')
  match cs with
  | '0' :: x :: rest =>
    let digits := rest.takeWhile isHex
    if (x = 'x' ∨ x = 'X') ∧ digits ≠ [] then (value 16 digits, rest.drop digits.length)
    else
      let digits := (x :: rest).takeWhile isOctal
      (value 8 digits, (x :: rest).drop digits.length)
  | _ =>
    let digits := cs.takeWhile Char.isDigit
    (value 10 digits, cs.drop digits.length)

def maxFieldNumber (isSigned : Bool) : Nat := if isSigned then 0x7fffffffffffffff else 0xffffffffffffffff

/-- The number that an argument spells, and what is wrong with it. After a quote it is the code of an octet. -/
def argumentNumber (isSigned : Bool) (s : String) : Int × Option String :=
  match s.toList with
  | [] => (0, none)
  | '"' :: rest => (((ofChars rest).headD 0).toNat, none)
  | '\'' :: rest => (((ofChars rest).headD 0).toNat, none)
  | cs =>
    let body := cs.dropWhile fun c => c = ' ' || ('\t' ≤ c && c ≤ '\r')
    let (isNegative, digits) := match body with
      | '-' :: rest => (true, rest)
      | '+' :: rest => (false, rest)
      | _ => (false, body)
    let (n, after) := leadingNatural digits
    let limit := maxFieldNumber isSigned
    let bounded := if limit < n then limit else n
    let value : Int := if isNegative then -(bounded : Int) else bounded
    if after.length = digits.length then (0, some s!"{s}: expected numeric value")
    else if after ≠ [] then (value, some s!"{s}: not completely converted")
    else if limit < n then (value, some s!"{s}: Numerical result out of range")
    else (value, none)

def inBase (base : Nat) (n : Int) : String := String.ofList (Nat.toDigits base (n % 0x10000000000000000).toNat)

/-- Print one field; whether printing goes on, and a complaint about the argument. -/
def formatField (flags : List Char) (width precision : Option Nat) (conversion : Char) (arg : String) :
    Bytes × Bool × Option String :=
  let text := fun (b : Bytes) => padded flags width (match precision with
    | some p => b.take p
    | none => b)
  let isSigned := conversion = 'd' || conversion = 'i'
  let (n, complaint) := argumentNumber isSigned arg
  let signed := if n < 0 then "-" else if flags.contains '+' then "+" else if flags.contains ' ' then " " else ""
  let before := fun (s : String) => if flags.contains '#' && n ≠ 0 then s else ""
  let number := fun (sign digits : String) => (paddedNumber flags width precision sign digits, true, complaint)
  match conversion with
  | 's' => (text (Bytes.ofString arg), true, none)
  | 'b' =>
    let (b, goesOn) := fillEscapes 0 arg.toList
    (text b, goesOn, none)
  | 'c' => (padded flags width (if arg = "" then [0] else (Bytes.ofString arg).take 1), true, none)
  | 'x' => number (before "0x") (inBase 16 n)
  | 'X' => number (before "0X") (inBase 16 n).toUpper
  | 'o' => number (before "0") (inBase 8 n)
  | 'u' => number "" (toString (n % 0x10000000000000000).toNat)
  | _ => number signed (toString n.natAbs)

def Extent.value (args : List String) : Extent → Option Int × List String
  | fixed n => (n.map fun (n : Nat) => (n : Int), args)
  | fromArgument => (some (argumentNumber true (args.headD "")).1, args.tail)

/-- Print the parts once; what is left of the arguments, and whether printing goes on. -/
def printParts (m : Machine) (args : List String) : List FormatPart → Machine × List String × Bool
  | [] => (m, args, true)
  | .octets b :: rest => printParts (m.emit 1 b) args rest
  | .mistake message :: _ => (m.refuse s!"printf: {message}" 2, [], false)
  | .field flags width precision conversion :: rest =>
    let (w, args) := width.value args
    let (p, args) := precision.value args
    let flags := if w.any (· < 0) then '-' :: flags else flags
    let (b, goesOn, complaint) := formatField flags (w.map Int.natAbs) ((p.filter (0 ≤ ·)).map Int.natAbs) conversion
      (args.headD "")
    let m := match complaint with
      | some c => (m.refuse s!"printf: {c}" 1).emit 1 b
      | none => m.emit 1 b
    if goesOn then printParts m args.tail rest else (m, [], false)

/-- Print the parts again as long as there are arguments that they use. -/
def printAll (parts : List FormatPart) : (fuel : Nat) → List String → Machine → Machine
  | 0, _, m => m
  | fuel + 1, args, m =>
    let (m, rest, goesOn) := printParts m args parts
    if goesOn && rest ≠ [] && rest.length < args.length then printAll parts fuel rest m else m

def printf (args : List String) (m : Machine) : Machine :=
  let isClosed := args.head? = some "--"
  match if isClosed then args.drop 1 else args with
  | [] => m.refuse "printf: usage: printf format [arg ...]" 2
  | format :: rest =>
    match if isClosed then [] else format.toList with
    | '-' :: c :: _ => m.refuse s!"printf: Illegal option -{c}" 2
    | _ => printAll (formatParts (format.length + 1) format.toList) (rest.length + 1) rest (m.ended 0)

end CertRotation.Shell
