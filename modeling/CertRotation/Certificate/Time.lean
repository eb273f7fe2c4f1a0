import CertRotation.Asn1.Tolerant
import CertRotation.Time.Instant

/-!
# Times in certificates

A time is a UTCTime with a two-digit year or a GeneralizedTime with a four-digit one. Both are read to the
second; fractions are checked and dropped.
-/
namespace CertRotation.Certificate

open Asn1

def digit? (b : UInt8) : Option Nat := if 48 ≤ b ∧ b ≤ 57 then some (b.toNat - 48) else none

def twoDigits : Reader Nat := do
  let a ← octet
  let b ← octet
  let a ← ofOption (digit? a)
  let b ← ofOption (digit? b)
  pure (10 * a + b)

/-- Digits of a date and time of day. -/
structure ClockTime where
  date : Date
  hour : Nat
  minute : Nat
  second : Nat
  deriving DecidableEq, Repr

def ClockTime.isValid (t : ClockTime) : Bool :=
  t.date.isValid && t.hour ≤ 23 && t.minute ≤ 59 && t.second ≤ 59

def ClockTime.toInstant (t : ClockTime) : Instant :=
  .ofSeconds (86400 * t.date.toDays + 3600 * t.hour + 60 * t.minute + t.second)

/-- Two digits if at least two octets are left, else zero. -/
def seconds : Reader Nat := fun b => if b.length < 2 then some (0, b) else twoDigits.run b

/-- Month, day, hour, minute and the optional second after a year. -/
def clockTime (year : Nat) : Reader ClockTime := do
  let month ← twoDigits
  let day ← twoDigits
  let hour ← twoDigits
  let minute ← twoDigits
  let second ← seconds
  let t : ClockTime := ⟨⟨year, month, day⟩, hour, minute, second⟩
  require t.isValid
  pure t

/-- A zone to the end of the text, as seconds ahead of UTC. The sign stands for the hours; the minutes
follow them, and point ahead when there are no hours. -/
def zone : Reader Int := do
  let sign ← octet
  if sign = 90 then
    fun b => if b = [] then some (0, []) else none
  else
    require (sign = 43 || sign = 45)
    let hours ← twoDigits
    let minutes ← twoDigits
    require (hours ≤ 25 && minutes ≤ 59)
    let ahead : Int := 3600 * hours + 60 * minutes
    fun b => if b = [] then some (if sign = 45 ∧ hours ≠ 0 then -ahead else ahead, []) else none

/-- Years below 50 belong to this century. -/
def fullYear (y : Nat) : Nat := if y < 50 then 2000 + y else 1900 + y

def utcTime : Reader Instant := do
  let year ← twoDigits
  let t ← clockTime (fullYear year)
  let ahead ← zone
  pure ⟨t.toInstant.nanos - ahead * Instant.perSecond⟩

/-- A point and up to three digits, if there is a point. -/
def fraction : Reader Unit := fun b =>
  match b with
  | 46 :: rest =>
    let digits := rest.takeWhile fun d => (digit? d).isSome
    if digits.length ≤ 3 then some ((), rest.drop digits.length) else none
  | _ => some ((), b)

def generalizedTime : Reader Instant := do
  let century ← twoDigits
  let year ← twoDigits
  let t ← clockTime (100 * century + year)
  fraction
  fun b => if b = [90] then some (t.toInstant, []) else none

def isVisible (b : UInt8) : Bool := 0x20 ≤ b && b ≤ 0x7f

def time : Reader Instant := do
  let e ← element
  require (e.contents.all isVisible)
  let r ← if e.header.number = 23 then pure utcTime else if e.header.number = 24 then pure generalizedTime else refuse
  let (t, _) ← ofOption (r.run e.contents)
  pure t

end CertRotation.Certificate
