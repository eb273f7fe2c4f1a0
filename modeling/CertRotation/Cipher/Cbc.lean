import CertRotation.Bytes

/-!
# Cipher block chaining

`encrypt` pads and chains, `decrypt` undoes both. Padding fills the last block with its own length, and
a message that ends on a block boundary gets a whole block of it, so that it can always be told apart
from the message.
-/
namespace CertRotation

structure BlockCipher where
  blockSize : Nat
  encryptBlock : Bytes → Bytes
  decryptBlock : Bytes → Bytes

namespace Cbc

/-- `message` filled up to a multiple of `size`. -/
def pad (size : Nat) (message : Bytes) : Bytes :=
  let n := size - message.length % size
  message ++ List.replicate n (UInt8.ofNat n)

/-- Remove the padding of the last block, or `none` if it is malformed. -/
def unpad (size : Nat) (padded : Bytes) : Option Bytes :=
  match padded.getLast? with
  | none => none
  | some last =>
    let n := last.toNat
    if n = 0 ∨ size < n ∨ padded.length < n then none
    else
      let keep := padded.length - n
      if (padded.drop keep).all (· == last) then some (padded.take keep) else none

def encryptBlocks (c : BlockCipher) : (previous : Bytes) → List Bytes → List Bytes
  | _, [] => []
  | previous, block :: rest =>
    let out := c.encryptBlock (Bytes.xor previous block)
    out :: encryptBlocks c out rest

def decryptBlocks (c : BlockCipher) : (previous : Bytes) → List Bytes → List Bytes
  | _, [] => []
  | previous, block :: rest => Bytes.xor previous (c.decryptBlock block) :: decryptBlocks c block rest

def encrypt (c : BlockCipher) (iv message : Bytes) : Bytes :=
  (encryptBlocks c iv (chunks c.blockSize (pad c.blockSize message))).flatten

/-- The message, or `none` if the text is no whole number of blocks or ends in malformed padding. -/
def decrypt (c : BlockCipher) (iv text : Bytes) : Option Bytes :=
  if text.length % c.blockSize = 0 then
    unpad c.blockSize (decryptBlocks c iv (chunks c.blockSize text)).flatten
  else none

end Cbc
end CertRotation
