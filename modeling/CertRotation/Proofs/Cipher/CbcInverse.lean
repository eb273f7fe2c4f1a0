import CertRotation.Cipher.Cbc
import CertRotation.Proofs.Numbers

/-!
# Block chaining undone

Chaining needs only that the cipher can undo one block. The padding is found again because its last octet is its own
length, and a cipher text is longer than what it holds by no more than one block.
-/
namespace CertRotation

/-- Blocks of one size go to blocks of that size and come back. -/
structure BlockCipher.Invertible (c : BlockCipher) : Prop where
  size_pos : 0 < c.blockSize
  size_lt : c.blockSize < 256
  length_encryptBlock : ∀ b, b.length = c.blockSize → (c.encryptBlock b).length = c.blockSize
  decryptBlock_encryptBlock : ∀ b, b.length = c.blockSize → c.decryptBlock (c.encryptBlock b) = b

namespace Cbc

/-! ## Padding -/

theorem length_pad (size : Nat) (message : Bytes) :
    (pad size message).length = message.length + (size - message.length % size) := by
  simp [pad]

theorem dvd_length_pad {size : Nat} (hs : 0 < size) (message : Bytes) : size ∣ (pad size message).length := by
  have hlt := Nat.mod_lt message.length hs
  have hdiv := Nat.div_add_mod message.length size
  refine ⟨message.length / size + 1, ?_⟩
  rw [length_pad, Nat.mul_add]
  omega

theorem unpad_pad {size : Nat} (hs : 0 < size) (hs' : size < 256) (message : Bytes) :
    unpad size (pad size message) = some message := by
  have hlt := Nat.mod_lt message.length hs
  have hlen := length_pad size message
  obtain ⟨n, hn⟩ : ∃ n, n = size - message.length % size := ⟨_, rfl⟩
  rw [← hn] at hlen
  have hpad : pad size message = message ++ List.replicate n (UInt8.ofNat n) := by rw [hn]; rfl
  have hlast : (pad size message).getLast? = some (UInt8.ofNat n) := by
    rw [hpad, List.getLast?_append, List.getLast?_replicate, if_neg (by omega)]
    rfl
  have hval : (UInt8.ofNat n).toNat = n := by
    rw [UInt8.toNat_ofNat', Nat.mod_eq_of_lt (by omega)]
  rw [unpad, hlast]
  simp only [hval]
  rw [if_neg (by omega), hlen, Nat.add_sub_cancel, hpad, List.drop_left, List.take_left, if_pos]
  simp

/-! ## Chaining -/

variable {c : BlockCipher} (h : c.Invertible)
include h

theorem length_of_mem_encryptBlocks {previous : Bytes} {blocks : List Bytes} (hp : previous.length = c.blockSize)
    (hb : ∀ b ∈ blocks, b.length = c.blockSize) :
    ∀ b ∈ encryptBlocks c previous blocks, b.length = c.blockSize := by
  induction blocks generalizing previous with
  | nil => simp [encryptBlocks]
  | cons block rest ih =>
    have hblock := hb block (by simp)
    have hout : (c.encryptBlock (Bytes.xor previous block)).length = c.blockSize := by
      apply h.length_encryptBlock
      rw [Bytes.length_xor (hp.trans hblock.symm), hblock]
    intro b hmem
    rw [encryptBlocks, List.mem_cons] at hmem
    rcases hmem with rfl | hmem
    · exact hout
    · exact ih hout (fun b hb' => hb b (by simp [hb'])) b hmem

theorem decryptBlocks_encryptBlocks {previous : Bytes} {blocks : List Bytes} (hp : previous.length = c.blockSize)
    (hb : ∀ b ∈ blocks, b.length = c.blockSize) :
    decryptBlocks c previous (encryptBlocks c previous blocks) = blocks := by
  induction blocks generalizing previous with
  | nil => rfl
  | cons block rest ih =>
    have hblock := hb block (by simp)
    have hxor : (Bytes.xor previous block).length = c.blockSize := by
      rw [Bytes.length_xor (hp.trans hblock.symm), hblock]
    rw [encryptBlocks, decryptBlocks, h.decryptBlock_encryptBlock _ hxor,
      Bytes.xor_xor_cancel (hp.trans hblock.symm),
      ih (h.length_encryptBlock _ hxor) fun b hb' => hb b (by simp [hb'])]

theorem length_of_mem_chunks_pad (message : Bytes) :
    ∀ b ∈ chunks c.blockSize (pad c.blockSize message), b.length = c.blockSize :=
  fun _ hb => length_of_mem_chunks h.size_pos (dvd_length_pad h.size_pos message) hb

theorem chunks_encrypt {iv : Bytes} (hiv : iv.length = c.blockSize) (message : Bytes) :
    chunks c.blockSize (encrypt c iv message) =
      encryptBlocks c iv (chunks c.blockSize (pad c.blockSize message)) :=
  chunks_flatten h.size_pos (length_of_mem_encryptBlocks h hiv (length_of_mem_chunks_pad h message))

theorem length_encryptBlocks_flatten {previous : Bytes} {blocks : List Bytes} (hp : previous.length = c.blockSize)
    (hb : ∀ b ∈ blocks, b.length = c.blockSize) :
    (encryptBlocks c previous blocks).flatten.length = blocks.flatten.length := by
  induction blocks generalizing previous with
  | nil => rfl
  | cons block rest ih =>
    have hblock := hb block (by simp)
    have hout : (c.encryptBlock (Bytes.xor previous block)).length = c.blockSize := by
      apply h.length_encryptBlock
      rw [Bytes.length_xor (hp.trans hblock.symm), hblock]
    rw [encryptBlocks, List.flatten_cons, List.flatten_cons, List.length_append, List.length_append, hout, hblock,
      ih hout fun b hb' => hb b (by simp [hb'])]

theorem length_encrypt {iv : Bytes} (hiv : iv.length = c.blockSize) (message : Bytes) :
    (encrypt c iv message).length = message.length + (c.blockSize - message.length % c.blockSize) := by
  rw [encrypt, length_encryptBlocks_flatten h hiv (length_of_mem_chunks_pad h message), flatten_chunks, length_pad]

/-- What was encrypted is decrypted, under the same key and initial vector. -/
theorem decrypt_encrypt {iv : Bytes} (hiv : iv.length = c.blockSize) (message : Bytes) :
    decrypt c iv (encrypt c iv message) = some message := by
  have hblocks := length_of_mem_chunks_pad h message
  have hdvd : c.blockSize ∣ (encrypt c iv message).length := by
    rw [length_encrypt h hiv, ← length_pad]
    exact dvd_length_pad h.size_pos message
  rw [decrypt, if_pos (Nat.mod_eq_zero_of_dvd hdvd), chunks_encrypt h hiv, decryptBlocks_encryptBlocks h hiv hblocks,
    flatten_chunks, unpad_pad h.size_pos h.size_lt]

end Cbc
end CertRotation
