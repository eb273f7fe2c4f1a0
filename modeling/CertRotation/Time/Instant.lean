/-!
# Instants

An instant is a number of nanoseconds since the start of 1970 in UTC. Dates follow the Gregorian calendar in
both directions, which has the years from -262143 to 262142.
-/
namespace CertRotation

/-- A point in time. -/
structure Instant where
  nanos : Int
  deriving DecidableEq, Repr

namespace Instant

def perSecond : Int := 1000000000
def perDay : Int := 86400 * perSecond

def ofSeconds (s : Int) : Instant := ⟨s * perSecond⟩

/-- Whole seconds, rounded down. -/
def seconds (t : Instant) : Int := Int.fdiv t.nanos perSecond

instance : LE Instant := ⟨fun a b => a.nanos ≤ b.nanos⟩
instance : LT Instant := ⟨fun a b => a.nanos < b.nanos⟩
instance (a b : Instant) : Decidable (a ≤ b) := inferInstanceAs (Decidable (a.nanos ≤ b.nanos))
instance (a b : Instant) : Decidable (a < b) := inferInstanceAs (Decidable (a.nanos < b.nanos))

end Instant

/-- A calendar day. -/
structure Date where
  year : Int
  month : Nat
  day : Nat
  deriving DecidableEq, Repr

namespace Date

def isLeapYear (y : Int) : Bool := y % 4 = 0 && (y % 100 ≠ 0 || y % 400 = 0)

def daysInMonth (y : Int) (m : Nat) : Nat :=
  match m with
  | 2 => if isLeapYear y then 29 else 28
  | 4 | 6 | 9 | 11 => 30
  | _ => 31

def isValid (d : Date) : Bool := 1 ≤ d.month && d.month ≤ 12 && 1 ≤ d.day && d.day ≤ daysInMonth d.year d.month

/-- Days since the first day of 1970. The year is taken to start in March, so that the leap day is last. -/
def toDays (d : Date) : Int :=
  let y := if d.month ≤ 2 then d.year - 1 else d.year
  let m : Int := if d.month ≤ 2 then d.month + 9 else d.month - 3
  365 * y + Int.fdiv y 4 - Int.fdiv y 100 + Int.fdiv y 400 + (153 * m + 2) / 5 + d.day - 1 - 719468

/-- The day that lies `n` days after the first day of 1970. -/
def ofDays (n : Int) : Date :=
  let z := n + 719468
  let era := Int.fdiv z 146097
  let inEra := (z - era * 146097).toNat
  let yearOfEra := (inEra - inEra / 1460 + inEra / 36524 - inEra / 146096) / 365
  let dayOfYear := inEra - (365 * yearOfEra + yearOfEra / 4 - yearOfEra / 100)
  let m := (5 * dayOfYear + 2) / 153
  let day := dayOfYear - (153 * m + 2) / 5 + 1
  let month := if m < 10 then m + 3 else m - 9
  let year := era * 400 + yearOfEra + (if month ≤ 2 then 1 else 0)
  ⟨year, month, day⟩

end Date

def padded (width n : Nat) : String :=
  let s := toString n
  String.ofList (List.replicate (width - s.length) '0') ++ s

/-- Four digits; a year before 0 or after 9999 gets a sign as well. -/
def Date.yearText (y : Int) : String :=
  if y < 0 then "-" ++ padded 4 y.natAbs
  else if 9999 < y then "+" ++ padded 4 y.natAbs
  else padded 4 y.natAbs

namespace Instant

/-! ## The ends of the calendar -/

/-- The start of the year -262143. -/
def first : Instant := .ofSeconds (86400 * Date.toDays ⟨-262143, 1, 1⟩)

/-- The last nanosecond of the year 262142. -/
def last : Instant := ⟨86400 * Date.toDays ⟨262143, 1, 1⟩ * perSecond - 1⟩

def InCalendar (t : Instant) : Prop := first ≤ t ∧ t ≤ last

instance (t : Instant) : Decidable t.InCalendar := inferInstanceAs (Decidable (first ≤ t ∧ t ≤ last))

/-- The instant that lies `seconds` after `t`, unless the calendar ends before. -/
def later? (t : Instant) (seconds : Nat) : Option Instant :=
  let u : Instant := ⟨t.nanos + seconds * perSecond⟩
  if u ≤ last then some u else none

/-- The nanoseconds of the longest span: 2 ^ 63 - 1 milliseconds. -/
def longestSpan : Int := 0x7fffffffffffffff * 1000000

/-- A span of `nanos`, unless that is too long for one in either direction. -/
def span? (nanos : Int) : Option Int := if -longestSpan ≤ nanos ∧ nanos ≤ longestSpan then some nanos else none

/-- A span of whole seconds, unless that is too long for one. -/
def wholeSpan? (seconds : Nat) : Option Nat := if seconds * perSecond ≤ longestSpan then some seconds else none

/-! ## Texts -/

/-- Date and time of day, with `separator` between them and without the zone. -/
def civilText (separator : String) (t : Instant) : String :=
  let s := t.seconds
  let date := Date.ofDays (Int.fdiv s 86400)
  let ofDay := (s - 86400 * Int.fdiv s 86400).toNat
  Date.yearText date.year ++ "-" ++ padded 2 date.month ++ "-" ++ padded 2 date.day ++ separator ++
    padded 2 (ofDay / 3600) ++ ":" ++ padded 2 (ofDay / 60 % 60) ++ ":" ++ padded 2 (ofDay % 60)

/-- As people read it: `2026-06-01 00:00:00 UTC`. -/
def displayText (t : Instant) : String := t.civilText " " ++ " UTC"

def jsonText (t : Instant) : String := t.civilText "T" ++ "Z"

end Instant
end CertRotation
