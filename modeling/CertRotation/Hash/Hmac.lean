import CertRotation.Hash.Sha1
import CertRotation.Hash.Sha256
import CertRotation.Hash.Sha512

/-!
# Keyed hashes

`Hmac` for any iterated hash function. A `Hmac.Key` keeps the two states after the padded key, so that
one key can be used many times at the price of the messages alone.
-/
namespace CertRotation.Hmac
variable {σ : Type}

/-- A key prepared for use with one hash function. -/
structure Key (σ : Type) where
  inner : Hash.Midstate σ
  outer : Hash.Midstate σ

/-- A key longer than a block is replaced by its digest; then it is filled up with zeros. -/
def blockKey (H : Hash σ) (key : Bytes) : Bytes :=
  let k := if key.length > H.blockSize then H.digest key else key
  k ++ List.replicate (H.blockSize - k.length) 0

def Key.ofBytes (H : Hash σ) (key : Bytes) : Key σ :=
  let k := blockKey H key
  ⟨H.startBlock (k.map (· ^^^ 0x36)), H.startBlock (k.map (· ^^^ 0x5c))⟩

/-- The code of `message` under a prepared key. -/
def Key.tag (H : Hash σ) (k : Key σ) (message : Bytes) : Bytes :=
  H.finish k.outer (H.finish k.inner message)

end CertRotation.Hmac

namespace CertRotation

def hmac {σ : Type} (H : Hash σ) (key message : Bytes) : Bytes := (Hmac.Key.ofBytes H key).tag H message

/-- The hash functions that the formats of this library name. -/
inductive HashName where
  | sha1
  | sha224
  | sha256
  | sha384
  | sha512
  deriving DecidableEq, Repr

namespace HashName

def digest : HashName → Bytes → Bytes
  | sha1 => CertRotation.sha1.digest
  | sha224 => CertRotation.sha224.digest
  | sha256 => CertRotation.sha256.digest
  | sha384 => CertRotation.sha384.digest
  | sha512 => CertRotation.sha512.digest

def hmac : HashName → Bytes → Bytes → Bytes
  | sha1 => CertRotation.hmac CertRotation.sha1
  | sha224 => CertRotation.hmac CertRotation.sha224
  | sha256 => CertRotation.hmac CertRotation.sha256
  | sha384 => CertRotation.hmac CertRotation.sha384
  | sha512 => CertRotation.hmac CertRotation.sha512

end HashName
end CertRotation
