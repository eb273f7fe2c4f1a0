import CertRotation.Asn1.Oid

/-!
# Elements as certificates in the wild encode them

A reading that asks for less than DER does. Lengths must be definite but need not be minimal; tags count by
number alone, and what is left over inside a sequence may be ignored. The elements with indefinite length
that old encoders write are read by `Element.loose`.
-/
namespace CertRotation.Asn1

/-- Takes a value from the front of the octets, or refuses. -/
abbrev Reader := StateT Bytes Option

/-- What stands before the contents of an element. -/
structure Header where
  /-- Universal, application, context or private: 0 to 3. -/
  cls : UInt8
  constructed : Bool
  number : Nat
  /-- `none` if the contents end with an end mark. -/
  length : Option Nat
  deriving DecidableEq, Repr

structure Element where
  header : Header
  contents : Bytes
  deriving DecidableEq, Repr

def refuse {α : Type} : Reader α := fun _ => none

def require (p : Bool) : Reader Unit := if p then pure () else refuse

def ofOption {α : Type} (o : Option α) : Reader α := fun b => o.map (·, b)

def octet : Reader UInt8
  | [] => none
  | b :: rest => some (b, rest)

def take (n : Nat) : Reader Bytes := fun b => if b.length < n then none else some (b.take n, b.drop n)

def longNumber : (fuel : Nat) → (n : Nat) → Reader Nat
  | 0, _ => refuse
  | fuel + 1, n => do
    let b ← octet
    let n := (128 * n + b.toNat % 128) % 0x100000000
    if b < 0x80 then pure n else longNumber fuel n

/-- The number that `digits` spell in base 256, if it fits in 64 bits. -/
def lengthValue? (digits : Bytes) : Option Nat :=
  let n := Bytes.toNat digits
  if n < 0x10000000000000000 then some n else none

def header : Reader Header := do
  let first ← octet
  let low := first.toNat % 32
  let number ← if low = 31 then longNumber 5 0 else pure low
  let constructed := first &&& 0x20 != 0
  let l ← octet
  let length ← if l < 0x80 then pure (some l.toNat)
    else if l = 0x80 then (do require constructed; pure none)
    else if l = 0xff then refuse
    else (do
      let digits ← take (l.toNat - 0x80)
      let n ← ofOption (lengthValue? digits)
      pure (some n))
  pure ⟨first >>> 6, constructed, number, length⟩

def element : Reader Element := do
  let h ← header
  match h.length with
  | none => refuse
  | some n =>
    let contents ← take n
    pure ⟨h, contents⟩

/-- Pass over the contents of an element; true if it was an end mark. `fuel` bounds the octets and `depth`
the nesting of indefinite lengths. -/
def skipContents : (fuel depth : Nat) → Header → Reader Bool
  | 0, _, _ => refuse
  | _, 0, _ => refuse
  | fuel + 1, depth + 1, h =>
    match h.length with
    | some n => if n = 0 ∧ h.number = 0 then pure true else (do let _ ← take n; pure false)
    | none => do
      let inner ← header
      if ← skipContents fuel depth inner then pure false
      else skipContents fuel (depth + 1) h

/-- An element whose length may be indefinite; its contents end before the end mark. -/
def looseElement : Reader Element := fun b => do
  let (h, rest) ← header.run b
  let (_, after) ← (skipContents (b.length + 1) 50 h).run rest
  let n := rest.length - after.length
  let n := if h.length = none then n - 2 else n
  pure (⟨h, rest.take n⟩, after)

def numbered (n : Nat) : Reader Element := do
  let e ← element
  require (e.header.number = n)
  pure e

/-- What `r` reads from the contents of an element with tag number `n`; the rest of them is ignored. -/
def inside {α : Type} (n : Nat) (r : Reader α) : Reader α := do
  let e ← numbered n
  let (a, _) ← ofOption (r.run e.contents)
  pure a

/-- `r` as often as it succeeds, at most `fuel` times. -/
def many {α : Type} (r : Reader α) : (fuel : Nat) → Reader (List α)
  | 0 => pure []
  | fuel + 1 => fun b =>
    match r.run b with
    | none => some ([], b)
    | some (a, rest) => (many r fuel).run rest |>.map fun (as, rest) => (a :: as, rest)

end CertRotation.Asn1
