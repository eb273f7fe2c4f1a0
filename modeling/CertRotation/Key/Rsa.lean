import CertRotation.Asn1.Der
import CertRotation.Asn1.Write
import CertRotation.Key.Arithmetic

/-!
# RSA keys

Keys with two primes. A key is sound if the primes multiply to the modulus and the exponents undo each other
modulo each prime less one.
-/
namespace CertRotation

/-- A private key with two primes. -/
structure RsaKey where
  modulus : Nat
  publicExponent : Nat
  privateExponent : Nat
  prime1 : Nat
  prime2 : Nat
  deriving DecidableEq, Repr

namespace RsaKey

def oid : Oid := .ofArcs [1, 2, 840, 113549, 1, 1, 1]

def algorithm : Bytes := Der.Write.sequence [Der.Write.oid oid, Der.Write.null]

/-- The modulus is odd; the public exponent is odd, below it, and between 2 and `2 ^ 33 - 1`; the primes
belong to the modulus and to the exponents. -/
def isSound (k : RsaKey) : Bool :=
  let e := k.publicExponent
  e < k.modulus && k.modulus % 2 = 1 && e % 2 = 1 && 2 ≤ e && e < 0x200000000 &&
    k.prime1 * k.prime2 = k.modulus &&
    e * k.privateExponent % (k.prime1 - 1) = 1 && e * k.privateExponent % (k.prime2 - 1) = 1

def fields : Der.Reader RsaKey := do
  let version ← Der.natural
  Der.require (version = 0)
  let modulus ← Der.natural
  let publicExponent ← Der.natural
  let privateExponent ← Der.natural
  let prime1 ← Der.natural
  let prime2 ← Der.natural
  let _ ← Der.natural
  let _ ← Der.natural
  let _ ← Der.natural
  pure ⟨modulus, publicExponent, privateExponent, prime1, prime2⟩

/-- A sound key that makes up all of `b`. -/
def parse? (b : Bytes) : Option RsaKey :=
  match (Der.sequence fields).whole? b with
  | some k => if k.isSound then some k else none
  | none => none

/-- The key with its derived values, unless the primes have a common divisor. -/
def encode? (k : RsaKey) : Option Bytes :=
  (inverseMod? k.prime2 k.prime1).map fun coefficient =>
    Der.Write.sequence ([0, k.modulus, k.publicExponent, k.privateExponent, k.prime1, k.prime2,
      k.privateExponent % (k.prime1 - 1), k.privateExponent % (k.prime2 - 1), coefficient].map
      Der.Write.natural)

def publicKey (k : RsaKey) : Bytes :=
  Der.Write.sequence [algorithm, Der.Write.bitString
    (Der.Write.sequence [Der.Write.natural k.modulus, Der.Write.natural k.publicExponent])]

end RsaKey
end CertRotation
