import CertRotation.Proofs.Cipher.AesField

/-!
# AES undone

Every layer of the cipher is undone by its partner: the substitution by its table, the shift by the shift back, and the
mixing by the inverse matrix, because multiplication in the field distributes over exclusive or. Whatever the round
keys are, `decryptBlock` gives back what `encryptBlock` took.
-/
namespace CertRotation.Aes

/-! ## Substitution -/

def turns (y : UInt8) : UInt8 := y ^^^ rotl y 1 ^^^ rotl y 2 ^^^ rotl y 3 ^^^ rotl y 4 ^^^ 0x63

def turnsBack (z : UInt8) : UInt8 := rotl z 1 ^^^ rotl z 3 ^^^ rotl z 6 ^^^ 0x05

theorem turnsBack_turns (y : UInt8) : turnsBack (turns y) = y := by
  apply forall_octet (p := fun y => turnsBack (turns y) = y)
  decide +kernel

theorem unsubstitute_substitute (x : UInt8) : unsubstitute (substitute x) = x := by
  show inverse (turnsBack (turns (inverse x))) = x
  rw [turnsBack_turns, inverse_inverse]

theorem getD_table (f : UInt8 → UInt8) (x : UInt8) : (table f).getD x.toNat 0 = f x := by
  have hx : x.toNat < (table f).size := by
    rw [table]
    simpa using x.toNat_lt
  rw [Array.getD_eq_getD_getElem?, Array.getElem?_eq_getElem hx, Option.getD_some]
  simp only [table, Array.getElem_ofFn, UInt8.ofNat_toNat]

theorem unsub_sub (s : Block) : s.sub.unsub = s := by
  simp only [Block.sub, Block.unsub, Block.map, Column.map, substitution, unsubstitution, getD_table,
    unsubstitute_substitute]

theorem unshiftRows_shiftRows (s : Block) : s.shiftRows.unshiftRows = s := rfl

/-! ## Mixing -/

theorem circulant_xor (m0 m1 m2 m3 : UInt8) (c d : Column) :
    Column.circulant m0 m1 m2 m3 (c.xor d) =
      (Column.circulant m0 m1 m2 m3 c).xor (Column.circulant m0 m1 m2 m3 d) := by
  simp only [Column.circulant, Column.xor, xor_mul, Column.mk.injEq]
  refine ⟨?_, ?_, ?_, ?_⟩ <;> ac_rfl

theorem unmix_mix_xor {c d : Column} (hc : c.mix.unmix = c) (hd : d.mix.unmix = d) :
    (c.xor d).mix.unmix = c.xor d := by
  unfold Column.mix Column.unmix at *
  rw [circulant_xor, circulant_xor, hc, hd]

/-- The inverse matrix on the columns of the matrix: by the lemma above it is enough to try the bits. -/
theorem unmix_mix_single (x : UInt8) :
    (Column.mix ⟨x, 0, 0, 0⟩).unmix = ⟨x, 0, 0, 0⟩ ∧ (Column.mix ⟨0, x, 0, 0⟩).unmix = ⟨0, x, 0, 0⟩ ∧
      (Column.mix ⟨0, 0, x, 0⟩).unmix = ⟨0, 0, x, 0⟩ ∧ (Column.mix ⟨0, 0, 0, x⟩).unmix = ⟨0, 0, 0, x⟩ := by
  induction x using octet_of_bits with
  | hbit i =>
    revert i
    decide
  | hxor x y hx hy =>
    obtain ⟨hx0, hx1, hx2, hx3⟩ := hx
    obtain ⟨hy0, hy1, hy2, hy3⟩ := hy
    have h0 := unmix_mix_xor hx0 hy0
    have h1 := unmix_mix_xor hx1 hy1
    have h2 := unmix_mix_xor hx2 hy2
    have h3 := unmix_mix_xor hx3 hy3
    simp only [Column.xor, UInt8.xor_self] at h0 h1 h2 h3
    exact ⟨h0, h1, h2, h3⟩

theorem unmix_mix (c : Column) : c.mix.unmix = c := by
  obtain ⟨x, y, z, w⟩ := c
  have hsum : (⟨x, y, z, w⟩ : Column) =
      (Column.xor ⟨x, 0, 0, 0⟩ ⟨0, y, 0, 0⟩).xor (Column.xor ⟨0, 0, z, 0⟩ ⟨0, 0, 0, w⟩) := by
    simp [Column.xor]
  obtain ⟨hx, -, -, -⟩ := unmix_mix_single x
  obtain ⟨-, hy, -, -⟩ := unmix_mix_single y
  obtain ⟨-, -, hz, -⟩ := unmix_mix_single z
  obtain ⟨-, -, -, hw⟩ := unmix_mix_single w
  rw [hsum]
  exact unmix_mix_xor (unmix_mix_xor hx hy) (unmix_mix_xor hz hw)

/-! ## Rounds -/

theorem xor_xor (s k : Block) : (s.xor k).xor k = s := by
  simp only [Block.xor, Column.xor, UInt8.xor_assoc, UInt8.xor_self, UInt8.xor_zero]

theorem map_unmix_map_mix (s : Block) : (s.map Column.mix).map Column.unmix = s := by
  simp [Block.map, unmix_mix]

theorem decryptRounds_singleton (k s : Block) : decryptRounds [k] s = (s.xor k).unshiftRows.unsub := rfl

theorem decryptRounds_cons (k k' : Block) (ks : List Block) (s : Block) :
    decryptRounds (k :: k' :: ks) s =
      (((decryptRounds (k' :: ks) s).xor k).map Column.unmix).unshiftRows.unsub := rfl

theorem decryptRounds_encryptRounds (keys : List Block) (s : Block) :
    decryptRounds keys (encryptRounds keys s) = s := by
  fun_induction encryptRounds keys s with
  | case1 s => rfl
  | case2 k s => rw [decryptRounds_singleton, xor_xor, unshiftRows_shiftRows, unsub_sub]
  | case3 k ks s hne ih =>
    cases ks with
    | nil => exact absurd rfl hne
    | cons k' ks => rw [decryptRounds_cons, ih, xor_xor, map_unmix_map_mix, unshiftRows_shiftRows, unsub_sub]

/-- Decryption undoes encryption, whatever the keys of the rounds are. -/
theorem decryptBlock_encryptBlock (keys : List Block) (s : Block) : decryptBlock keys (encryptBlock keys s) = s := by
  cases keys with
  | nil => rfl
  | cons k ks => simp only [encryptBlock, decryptBlock, decryptRounds_encryptRounds, xor_xor]

/-! ## Octets -/

theorem ofBytes_toBytes (s : Block) : Block.ofBytes s.toBytes = s := rfl

theorem toBytes_ofBytes {b : Bytes} (h : b.length = 16) : (Block.ofBytes b).toBytes = b := by
  match b, h with
  | [_, _, _, _, _, _, _, _, _, _, _, _, _, _, _, _], _ => rfl

theorem length_encryptBlock (key b : Bytes) : ((cipher key).encryptBlock b).length = 16 := rfl

/-- A block of octets comes back from the cipher under any key. -/
theorem cipher_decrypt_encrypt (key : Bytes) {b : Bytes} (h : b.length = 16) :
    (cipher key).decryptBlock ((cipher key).encryptBlock b) = b := by
  simp only [cipher, ofBytes_toBytes, decryptBlock_encryptBlock, toBytes_ofBytes h]

end CertRotation.Aes
