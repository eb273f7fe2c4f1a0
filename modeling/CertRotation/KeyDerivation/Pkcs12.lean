import CertRotation.Hash.Hmac

/-!
# Password based key derivation of PKCS#12

Keys, initial vectors and integrity keys are told apart by `Purpose`. The password comes as big-endian
UTF-16 units with two final zero octets.
-/
namespace CertRotation.Pkcs12Kdf

/-- What the derived octets are for. -/
inductive Purpose where
  | key
  | iv
  | mac
  deriving DecidableEq, Repr

def Purpose.id : Purpose → UInt8
  | key => 1
  | iv => 2
  | mac => 3

/-- `b` repeated up to the next multiple of `v` octets; nothing stays nothing. -/
def fill (v : Nat) (b : Bytes) : Bytes :=
  let size := v * ((b.length + v - 1) / v)
  ((List.replicate (size / max 1 b.length + 1) b).flatten).take size

/-- Add `b + 1` to every piece of `v` octets of `input`, each modulo `256 ^ v`. -/
def stir (v : Nat) (b input : Bytes) : Bytes :=
  let n := Bytes.toNat b + 1
  (chunks v input).flatMap fun piece => Bytes.ofNat v (Bytes.toNat piece + n)

/-- `blocks` digests in a row, the input stirred after each. -/
def run {σ : Type} (H : Hash σ) (diversifier : Bytes) (rounds : Nat) : (blocks : Nat) → (input : Bytes) → Bytes
  | 0, _ => []
  | n + 1, input =>
    let a := Nat.repeat H.digest (rounds - 1) (H.digest (diversifier ++ input))
    a ++ run H diversifier rounds n (stir H.blockSize (fill H.blockSize a) input)

/-- `size` octets derived from `password` for `purpose`. -/
def derive {σ : Type} (H : Hash σ) (purpose : Purpose) (password salt : Bytes) (rounds size : Nat) : Bytes :=
  let v := H.blockSize
  let input := fill v salt ++ fill v password
  (run H (List.replicate v purpose.id) rounds ((size + H.digestSize - 1) / H.digestSize) input).take size

end CertRotation.Pkcs12Kdf
