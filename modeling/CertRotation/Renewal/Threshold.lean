import CertRotation.Certificate.Summary
import CertRotation.Text.Blank
import CertRotation.Text.Quoted
import CertRotation.Text.Utf8

/-!
# Renewal thresholds

A threshold says how long before its expiry a certificate is renewed: a fixed window such as `30d`, or a share of
the lifetime such as `10%`. `Threshold.parse` reads one, `Threshold.text` writes it in its shortest unit. Numbers have 64
bits, and spans and the calendar have ends; steps that may leave these ranges are checked.
-/
namespace CertRotation

/-- How far ahead of expiry a certificate is due for renewal. -/
inductive Threshold where
  | window (seconds : Nat)
  /-- A share of the lifetime, at most 100. -/
  | percentage (percent : Nat)
  deriving DecidableEq, Repr

namespace Threshold

/-- Why a text is no threshold. -/
inductive Error where
  | empty
  | noNumber
  | tooLarge
  | percentRange
  | unknownUnit
  | tooLong
  deriving DecidableEq, Repr

def Error.message : Error → String
  | empty => "threshold is empty"
  | noNumber => "expected a whole number followed by s, m, h, d, w or %"
  | tooLarge => "number is too large"
  | percentRange => "percentage must be between 0 and 100"
  | unknownUnit => "unknown unit, expected s, m, h, d, w or %"
  | tooLong => "window is longer than 100 years"

/-- The longest window: a hundred years of 365 days. -/
def maxWindow : Nat := 36500 * 86400

/-- Seconds in a unit, small letters only. -/
def unitSeconds? : Char → Option Nat
  | 's' => some 1
  | 'm' => some 60
  | 'h' => some 3600
  | 'd' => some 86400
  | 'w' => some 604800
  | _ => none

/-- The largest number of 64 bits with a sign. -/
def largest : Nat := 0x7fffffffffffffff

/-- The product, unless it is too large. -/
def product? (m n : Nat) : Option Nat := if m * n ≤ largest then some (m * n) else none

/-- The product, or the largest number in its place. -/
def boundedProduct (m n : Nat) : Nat := min (m * n) largest

def digitsValue (digits : List Char) : Nat := digits.foldl (fun n c => 10 * n + (c.toNat - 48)) 0

def isNumber (s : List Char) : Bool := !s.isEmpty && s.all Char.isDigit

/-- A number of 64 bits and its unit. -/
def ofParts (digits : List Char) (unit : Char) : Except Error Threshold :=
  if !isNumber digits then .error .noNumber
  else
    let n := digitsValue digits
    if largest < n then .error .tooLarge
    else if unit = '%' then if n ≤ 100 then .ok (.percentage n) else .error .percentRange
    else
      match unitSeconds? unit with
      | none => .error .unknownUnit
      | some k =>
        match (product? n k).filter (· ≤ maxWindow) with
        | some seconds => .ok (.window seconds)
        | none => .error .tooLong

/-- What stands before the last character `unit`: as many octets as `s` has beside those of `unit`. -/
def number? (s : List Char) (unit : Char) : Option (List Char) := Utf8.cut? s (Utf8.size s - unit.utf8Size)

/-- Blanks around a threshold and the case of its unit do not matter. There always is a number to be cut off. -/
def parse (text : String) : Except Error Threshold :=
  let s := (Text.trimChars text.toList).map Char.toLower
  match s.getLast? with
  | none => .error .empty
  | some unit => ofParts ((number? s unit).getD []) unit

/-- The largest of days, hours, minutes and seconds that divides a window; percentages as they are. -/
def text : Threshold → String
  | window n =>
    if n % 86400 = 0 then s!"{n / 86400}d"
    else if n % 3600 = 0 then s!"{n / 3600}h"
    else if n % 60 = 0 then s!"{n / 60}m"
    else s!"{n}s"
  | percentage p => s!"{p}%"

/-- Seconds before expiry from which on `c` is due, if every step stays in its range: the lifetime of `c` is a span, and so
is the window. A lifetime that ends before it begins counts as none. -/
def windowFor? (t : Threshold) (c : Certificate.Summary) : Option Nat :=
  match t with
  | window n => some n
  | percentage p => do
    let lifetime ← Instant.span? (c.notAfter.nanos - c.notBefore.nanos)
    Instant.wholeSpan? (boundedProduct (Int.tdiv lifetime Instant.perSecond).toNat p / 100)

/-- The window of `c`. There is one wherever the validity of `c` lies in the calendar. -/
def windowFor (t : Threshold) (c : Certificate.Summary) : Int := ((t.windowFor? c).getD 0 : Nat)

/-- Whether `c` expires within the window that starts at `now`. It does if the calendar ends within the window. -/
def isDue (t : Threshold) (c : Certificate.Summary) (now : Instant) : Bool :=
  match now.later? (t.windowFor c).toNat with
  | some horizon => decide (c.notAfter ≤ horizon)
  | none => true

end Threshold
end CertRotation
