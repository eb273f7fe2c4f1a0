import CertRotation.Bytes

/-!
# Iterated hash functions

A hash function is given by its compression step on whole blocks. `Hash.digest` pads the message with a
one bit, zeros and the message length, and folds the step over the blocks; `Hash.Midstate` is the state
after some whole blocks, from which any number of messages can be continued.
-/
namespace CertRotation

/-- An iterated hash function with states `σ`. -/
structure Hash (σ : Type) where
  /-- Octets in one block. -/
  blockSize : Nat
  /-- Octets of the length field that ends the padding. -/
  lengthSize : Nat
  /-- Octets in a digest. -/
  digestSize : Nat
  initial : σ
  /-- Take in one block. -/
  step : σ → Bytes → σ
  /-- The digest that a final state stands for. -/
  output : σ → Bytes

namespace Hash
variable {σ : Type}

/-- What follows a message of `n` octets up to the end of its last block. -/
def padding (H : Hash σ) (n : Nat) : Bytes :=
  let used := (n + 1 + H.lengthSize) % H.blockSize
  0x80 :: List.replicate ((H.blockSize - used) % H.blockSize) 0 ++ Bytes.ofNat H.lengthSize (8 * n)

def absorb (H : Hash σ) (s : σ) (blocks : Bytes) : σ := (chunks H.blockSize blocks).foldl H.step s

/-- The state after the first `consumed` octets, a multiple of the block size. -/
structure Midstate (σ : Type) where
  state : σ
  consumed : Nat

def start (H : Hash σ) : Midstate σ := ⟨H.initial, 0⟩

def startBlock (H : Hash σ) (block : Bytes) : Midstate σ := ⟨H.absorb H.initial block, H.blockSize⟩

/-- The digest of what `m` has taken in followed by `message`. -/
def finish (H : Hash σ) (m : Midstate σ) (message : Bytes) : Bytes :=
  (H.output (H.absorb m.state (message ++ H.padding (m.consumed + message.length)))).take H.digestSize

def digest (H : Hash σ) (message : Bytes) : Bytes := H.finish H.start message

end Hash
end CertRotation
