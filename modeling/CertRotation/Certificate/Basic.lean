import CertRotation.Certificate.Name
import CertRotation.Certificate.Time

/-!
# X.509 certificates

`Certificate.read?` takes a certificate from the front of the octets, `Certificate.parse` takes all of them.
Signatures are not checked; algorithms, keys and extensions are checked for structure only.
-/
namespace CertRotation

/-- The parts of a certificate that rotation looks at. -/
structure Certificate where
  serial : Bytes
  issuer : Certificate.Name
  notBefore : Instant
  notAfter : Instant
  subject : Certificate.Name
  /-- The encoded public key with its algorithm. -/
  publicKey : Bytes
  deriving DecidableEq, Repr

namespace Certificate

open Asn1

def trailingZeros (b : UInt8) : Nat := ((List.range 8).takeWhile fun i => !b.toNat.testBit i).length

def bitString : Reader Bytes := do
  let e ← numbered 3
  require (!e.header.constructed)
  match e.contents with
  | [] => refuse
  | unused :: rest =>
    require (if rest = [] then unused = 0 else unused.toNat ≤ trailingZeros (rest.getLastD 0))
    pure rest

/-- An algorithm identifier; its parameters may be anything. -/
def algorithm : Reader Unit := inside 16 do
  let _ ← oidElement
  fun b => if b = [] then some ((), []) else (element.run b).map fun (_, rest) => ((), rest)

/-- The octets of an integer that is not negative, has no needless leading octet and fits in 32 bits. -/
def isVersion : Bytes → Bool
  | [] => false
  | [b] => b < 0x80
  | b :: c :: rest => if b = 0 then 0x80 ≤ c && rest.length ≤ 3 else b < 0x80 && rest.length ≤ 2

/-- The optional version under context tag 0. -/
def version : Reader Unit := fun b =>
  if b = [] then some ((), b)
  else do
    let (e, rest) ← element.run b
    if e.header.number ≠ 0 then some ((), b)
    else if e.header.cls ≠ 2 then none
    else
      let (v, _) ← (numbered 2).run e.contents
      if !v.header.constructed && isVersion v.contents then some ((), rest) else none

/-- An optional unique identifier under context tag `n`. -/
def uniqueIdentifier (n : Nat) : Reader Unit := fun b =>
  if b = [] then some ((), b)
  else do
    let (e, rest) ← element.run b
    if e.header.number ≠ n then some ((), b)
    else if e.header.cls ≠ 2 ∨ e.contents = [] then none
    else some ((), rest)

/-- An optional truth value before the value of an extension. -/
def critical : Reader Unit := fun b =>
  match element.run b with
  | some (e, rest) => if e.header.number = 1 ∧ e.contents.length = 1 then some ((), rest) else some ((), b)
  | none => some ((), b)

/-- An extension; its value may be anything. -/
def extension : Reader Unit := inside 16 do
  let _ ← oidElement
  critical
  let e ← numbered 4
  require (!e.header.constructed)

/-- Extensions under context tag 3, up to the end of what is signed. -/
def extensions : Reader Unit := fun b =>
  if b = [] then some ((), b)
  else do
    let (h, rest) ← header.run b
    if h.number ≠ 3 then none
    else
      let (e, rest) ← (numbered 16).run rest
      if rest ≠ [] then none
      else
        let (_, unread) ← (many extension e.contents.length).run e.contents
        if unread = [] then some ((), []) else none

/-- The key with its encoding up to the end of the bit string. -/
def publicKeyInfo : Reader Bytes := fun b => do
  let (e, rest) ← (numbered 16).run b
  let (_, afterAlgorithm) ← algorithm.run e.contents
  let (_, unread) ← bitString.run afterAlgorithm
  some (b.take (b.length - rest.length - unread.length), rest)

def serialNumber : Reader Bytes := do
  let e ← looseElement
  require (e.header.number = 2)
  pure e.contents

def validity : Reader (Instant × Instant) := inside 16 do
  let notBefore ← time
  let notAfter ← time
  pure (notBefore, notAfter)

def signedPart : Reader Certificate := inside 16 do
  version
  let serial ← serialNumber
  algorithm
  let issuer ← name
  let (notBefore, notAfter) ← validity
  let subject ← name
  let publicKey ← publicKeyInfo
  uniqueIdentifier 1
  uniqueIdentifier 2
  extensions
  pure ⟨serial, issuer, notBefore, notAfter, subject, publicKey⟩

def reader : Reader Certificate := inside 16 do
  let c ← signedPart
  algorithm
  let _ ← bitString
  pure c

/-- The certificate at the front of `b` and what follows it. -/
def read? (b : Bytes) : Option (Certificate × Bytes) := reader.run b

/-- Why octets are no certificate. -/
inductive ParseError where
  | malformed
  | trailing (count : Nat)
  deriving DecidableEq, Repr

def parse (b : Bytes) : Except ParseError Certificate :=
  match read? b with
  | none => .error .malformed
  | some (c, []) => .ok c
  | some (_, rest) => .error (.trailing rest.length)

/-- The serial number in base 16 without leading zeros, at least one octet. -/
def serialText (c : Certificate) : String :=
  match c.serial.dropWhile (· = 0) with
  | [] => "00"
  | digits => Bytes.colonHex digits

end Certificate
end CertRotation
