import CertRotation.Hash.Hmac

/-!
# Password based key derivation, second scheme of PKCS#5
-/
namespace CertRotation.Pbkdf2
variable {σ : Type}

/-- Exclusive or of the chain `u`, `prf u`, `prf (prf u)`, … with `n` links after the first. -/
def chain (prf : Bytes → Bytes) : (n : Nat) → (u sum : Bytes) → Bytes
  | 0, _, sum => sum
  | n + 1, u, sum =>
    let v := prf u
    chain prf n v (Bytes.xor sum v)

/-- Block `i` of the derived key, counted from one. -/
def block (prf : Bytes → Bytes) (salt : Bytes) (rounds i : Nat) : Bytes :=
  let u := prf (salt ++ Bytes.ofNat 4 i)
  chain prf (rounds - 1) u u

/-- `size` octets derived from `password`. No rounds count as one round. -/
def derive (H : Hash σ) (password salt : Bytes) (rounds size : Nat) : Bytes :=
  let key := Hmac.Key.ofBytes H password
  let blocks := (size + H.digestSize - 1) / H.digestSize
  ((List.range blocks).flatMap fun i => block (key.tag H) salt rounds (i + 1)).take size

end CertRotation.Pbkdf2

namespace CertRotation

/-- Key derivation with the keyed form of the named hash. -/
def HashName.pbkdf2 : HashName → (password salt : Bytes) → (rounds size : Nat) → Bytes
  | sha1 => Pbkdf2.derive CertRotation.sha1
  | sha224 => Pbkdf2.derive CertRotation.sha224
  | sha256 => Pbkdf2.derive CertRotation.sha256
  | sha384 => Pbkdf2.derive CertRotation.sha384
  | sha512 => Pbkdf2.derive CertRotation.sha512

end CertRotation
