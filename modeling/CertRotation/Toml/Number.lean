import CertRotation.Toml.Text
import CertRotation.Toml.Value

/-!
# TOML numbers, truth values, dates and times

A scalar without quotes is taken as a whole word, up to the next blank or sign of punctuation, and then told apart by
its form.
-/
namespace CertRotation.Toml

/-- Digits with single underscores between them; the digits alone. -/
def grouped? (isOne : Char → Bool) : List Char → Option (List Char)
  | [] => none
  | [c] => if isOne c then some [c] else none
  | c :: '_' :: rest => if isOne c then (grouped? isOne rest).map (c :: ·) else none
  | c :: rest => if isOne c then (grouped? isOne rest).map (c :: ·) else none

/-- Digits of a number that starts with no needless zero. -/
def decimal? (cs : List Char) : Option (List Char) :=
  match cs with
  | '0' :: _ :: _ => none
  | _ => grouped? Char.isDigit cs

def numberOf (base : Nat) (digits : List Char) : Nat :=
  digits.foldl (fun n c => base * n + (hexDigit? c).getD 0) 0

def splitSign : List Char → Bool × List Char
  | '+' :: rest => (false, rest)
  | '-' :: rest => (true, rest)
  | cs => (false, cs)

def inRange? (n : Int) : Option Value := if -0x8000000000000000 ≤ n ∧ n < 0x8000000000000000 then some (.integer n) else none

def isDigitOf (base : Nat) (c : Char) : Bool := (hexDigit? c).any (· < base)

def basedInteger? (base : Nat) (cs : List Char) : Option Value := do
  inRange? (numberOf base (← grouped? (isDigitOf base) cs))

def integer? : List Char → Option Value
  | '0' :: 'x' :: rest => basedInteger? 16 rest
  | '0' :: 'o' :: rest => basedInteger? 8 rest
  | '0' :: 'b' :: rest => basedInteger? 2 rest
  | cs => do
    let (isNegative, rest) := splitSign cs
    let n := numberOf 10 (← decimal? rest)
    inRange? (if isNegative then -n else n)

/-! ## Floats -/

/-- The part after the letter `e`. -/
def exponent? (cs : List Char) : Option Int := do
  let (isNegative, rest) := splitSign cs
  let n := numberOf 10 (← grouped? Char.isDigit rest)
  pure (if isNegative then -n else n)

/-- Whether `m * 10 ^ e` is too large for a float of 64 bits. The bound is halfway between the largest float and the
next power of two. -/
def overflows (m : Nat) (e : Int) : Bool :=
  let size := ((toString m).length : Int) + e
  if m = 0 ∨ size ≤ 308 then false
  else if 310 < size then true
  else
    let bound := Nat.pow 2 1024 - Nat.pow 2 970
    if 0 ≤ e then decide (bound ≤ m * Nat.pow 10 e.toNat) else decide (bound * Nat.pow 10 (-e).toNat ≤ m)

def isDigitOrGap (c : Char) : Bool := c.isDigit || c = '_'

def float? (cs : List Char) : Option Value := do
  let (isNegative, body) := splitSign cs
  if body = ['i', 'n', 'f'] ∨ body = ['n', 'a', 'n'] then return .float (String.ofList cs)
  let whole ← decimal? (body.takeWhile isDigitOrGap)
  let (fraction, rest) ← match body.dropWhile isDigitOrGap with
    | '.' :: more => (grouped? Char.isDigit (more.takeWhile isDigitOrGap)).map (·, more.dropWhile isDigitOrGap)
    | 'e' :: more => some ([], 'e' :: more)
    | 'E' :: more => some ([], 'e' :: more)
    | _ => none
  let e ← match rest with
    | [] => some 0
    | 'e' :: more => exponent? more
    | 'E' :: more => exponent? more
    | _ => none
  if !isNegative && overflows (numberOf 10 (whole ++ fraction)) (e - fraction.length) then none
  else some (.float (String.ofList cs))

/-! ## Dates and times -/

/-- A number of exactly `size` digits. -/
def fixed? (size : Nat) (cs : List Char) : Option Nat :=
  if cs.length = size ∧ cs.all Char.isDigit then some (numberOf 10 cs) else none

def daysIn (year month : Nat) : Nat :=
  if month = 2 then if year % 4 = 0 ∧ (year % 100 ≠ 0 ∨ year % 400 = 0) then 29 else 28
  else if month = 4 ∨ month = 6 ∨ month = 9 ∨ month = 11 then 30
  else 31

def isDate (cs : List Char) : Bool :=
  match fixed? 4 (cs.take 4), (cs.drop 4).take 1, fixed? 2 ((cs.drop 5).take 2), (cs.drop 7).take 1,
    fixed? 2 (cs.drop 8) with
  | some year, ['-'], some month, ['-'], some day => 1 ≤ month && month ≤ 12 && 1 ≤ day && day ≤ daysIn year month
  | _, _, _, _, _ => false

def isHourMinute (cs : List Char) : Bool :=
  match fixed? 2 (cs.take 2), (cs.drop 2).take 1, fixed? 2 (cs.drop 3) with
  | some hour, [':'], some minute => hour ≤ 23 && minute ≤ 59
  | _, _, _ => false

/-- Hours, minutes, seconds with leap seconds, and perhaps a fraction of one. -/
def isTime (cs : List Char) : Bool :=
  isHourMinute (cs.take 5) &&
    match (cs.drop 5).take 1, fixed? 2 ((cs.drop 6).take 2), cs.drop 8 with
    | [':'], some second, fraction =>
      second ≤ 60 &&
        match fraction with
        | [] => true
        | '.' :: digits => digits ≠ [] && digits.all Char.isDigit
        | _ => false
    | _, _, _ => false

def isZonedTime (cs : List Char) : Bool :=
  let n := cs.length
  isTime cs ||
    ((cs.drop (n - 1) = ['Z'] || cs.drop (n - 1) = ['z']) && isTime (cs.take (n - 1))) ||
    (match cs.drop (n - 6) with
      | '+' :: zone => isHourMinute zone && isTime (cs.take (n - 6))
      | '-' :: zone => isHourMinute zone && isTime (cs.take (n - 6))
      | _ => false)

def dateTime? (cs : List Char) : Option Value :=
  let isOne := isTime cs || isDate cs ||
    (isDate (cs.take 10) &&
      match cs.drop 10 with
      | 'T' :: time => isZonedTime time
      | 't' :: time => isZonedTime time
      | ' ' :: time => isZonedTime time
      | _ => false)
  if isOne then some (.dateTime (String.ofList cs)) else none

/-! ## Words -/

def isWordChar (c : Char) : Bool := !isSpace c && c ≠ '\n' && c ≠ '\r' && c ≠ '#' && c ≠ ',' && c ≠ ']' && c ≠ '\x7d'

def boolean? (cs : List Char) : Option Value :=
  if cs = ['t', 'r', 'u', 'e'] then some (.boolean true)
  else if cs = ['f', 'a', 'l', 's', 'e'] then some (.boolean false)
  else none

def ofWord? (cs : List Char) : Option Value :=
  (boolean? cs).orElse fun _ => (dateTime? cs).orElse fun _ => (float? cs).orElse fun _ => integer? cs

/-- The scalar at the front. A date goes on after a blank if a time follows. -/
def word? (cs : List Char) : Option (Value × List Char) :=
  let word := cs.takeWhile isWordChar
  let rest := cs.dropWhile isWordChar
  let longer := word ++ ' ' :: (rest.drop 1).takeWhile isWordChar
  match isDate word && rest.head? = some ' ', dateTime? longer with
  | true, some v => some (v, (rest.drop 1).dropWhile isWordChar)
  | _, _ => (ofWord? word).map (·, rest)

end CertRotation.Toml
