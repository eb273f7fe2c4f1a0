import CertRotation.Encryption.Pbes2
import CertRotation.Proofs.Asn1.DerRoundTrip
import CertRotation.Proofs.Cipher.AesInverse
import CertRotation.Proofs.Cipher.CbcInverse

/-!
# Password based encryption undone

The algorithm identifier that goes with an encryption is read as the scheme that it was written for, and under the
same password that scheme gives back the plain text.
-/
namespace CertRotation

theorem Aes.cipher_invertible (key : Bytes) : (Aes.cipher key).Invertible where
  size_pos := show 0 < 16 by decide
  size_lt := show 16 < 256 by decide
  length_encryptBlock _ _ := Aes.length_encryptBlock key _
  decryptBlock_encryptBlock _ hb := Aes.cipher_decrypt_encrypt key hb

namespace Pbes2

theorem Seed.length_vector (s : Seed) : s.vector.length = 16 := by
  simp [Seed.vector]

theorem Seed.length_encrypt (s : Seed) (password plain : Bytes) :
    (s.encrypt password plain).length = plain.length + (16 - plain.length % 16) :=
  Cbc.length_encrypt (Aes.cipher_invertible _) s.length_vector plain

/-- The scheme of a seed decrypts what the seed has encrypted. -/
theorem Seed.decrypt_encrypt (s : Seed) (password plain : Bytes) :
    s.scheme.decrypt password (s.encrypt password plain) = .ok plain := by
  have hkey : (Derivation.pbkdf2 s.salt rounds none .sha256).key password 32 =
      .ok (HashName.sha256.pbkdf2 password s.salt rounds 32) := rfl
  have hcbc := Cbc.decrypt_encrypt (Aes.cipher_invertible (HashName.sha256.pbkdf2 password s.salt rounds 32))
    s.length_vector plain
  simp only [Seed.scheme, Scheme.decrypt, hkey, Seed.encrypt, bind, Except.bind, hcbc]

/-! ## The algorithm identifier -/

theorem isStrict_schemeOid : schemeOid.isStrict = true := by cbv
theorem isStrict_pbkdf2Oid : pbkdf2Oid.isStrict = true := by cbv
theorem isStrict_sha256Oid : sha256Oid.isStrict = true := by cbv
theorem isStrict_aes256Oid : aes256Oid.isStrict = true := by cbv
theorem lookup_schemeOids : hashes.lookup sha256Oid = some .sha256 ∧ ciphers.lookup aes256Oid = some 32 := by
  decide +kernel

def hashAlgorithm : Bytes := Der.Write.sequence [Der.Write.oid sha256Oid, Der.Write.null]

def Seed.derivationFields (s : Seed) : Bytes :=
  Der.Write.octetString s.salt ++ (Der.Write.natural rounds ++ hashAlgorithm)

/-- What stands inside the parameters of the scheme: the derivation and the cipher. -/
def Seed.schemeFields (s : Seed) : Bytes :=
  Der.Write.sequence [Der.Write.oid pbkdf2Oid, Der.Write.tlv 0x30 s.derivationFields] ++
    Der.Write.sequence [Der.Write.oid aes256Oid, Der.Write.octetString s.vector]

theorem Seed.algorithm_eq (s : Seed) :
    s.algorithm = Der.Write.sequence [Der.Write.oid schemeOid, Der.Write.tlv 0x30 s.schemeFields] := by
  simp [Seed.algorithm, Seed.schemeFields, Seed.derivationFields, hashAlgorithm, Der.Write.sequence]

theorem reads_hashAlgorithm : Der.Reads Der.algorithm hashAlgorithm ⟨sha256Oid, some ⟨0x05, []⟩⟩ :=
  Der.reads_algorithm isStrict_sha256Oid (by decide) (by cbv)

theorem reads_rounds : Der.Reads (Der.naturalBelow 0x100000000) (Der.Write.natural rounds) rounds :=
  Der.reads_naturalBelow (by decide) (by decide)

theorem pbkdf2Fields_of_seed {s : Seed} (h : Der.Fits s.derivationFields) :
    pbkdf2Fields.whole? s.derivationFields = some (.pbkdf2 s.salt rounds none .sha256) := by
  have hsalt : Der.Fits s.salt := h.left.contents
  have hhash : hashAlgorithm = 0x30 :: hashAlgorithm.tail := rfl
  have hread : Der.Reads (do
      let a ← Der.algorithm
      Der.ofOption (hash? a)) (0x30 :: hashAlgorithm.tail) HashName.sha256 := by
    rw [← hhash]
    intro rest
    simp [StateT.run_bind, reads_hashAlgorithm rest, hash?, Der.Element.isNull, lookup_schemeOids.1,
      Der.run_ofOption_some]
  have hopt := Der.Reads.optional (by decide) hread []
  have hnone := Der.run_optional_of_ne (t := 0x02) (u := 0x30) (Der.naturalBelow 0x10000) (by decide) (by decide)
    hashAlgorithm.tail
  rw [List.append_nil, ← hhash] at hopt
  rw [← hhash] at hnone
  apply Der.whole?_of_run
  simp only [pbkdf2Fields, Seed.derivationFields, StateT.run_bind, Der.reads_octetString hsalt _, reads_rounds _,
    hnone, hopt, Option.bind_eq_bind, Option.bind_some, StateT.run_pure]
  rfl

theorem derivation?_of_seed {s : Seed} (h : Der.Fits s.derivationFields) :
    derivation? ⟨pbkdf2Oid, some ⟨0x30, s.derivationFields⟩⟩ = some (.pbkdf2 s.salt rounds none .sha256) := by
  simp [derivation?, Der.Element.within?, pbkdf2Fields_of_seed h]

theorem cipher?_of_seed (s : Seed) : cipher? ⟨aes256Oid, some ⟨0x04, s.vector⟩⟩ = some (32, s.vector) := by
  simp [cipher?, s.length_vector, lookup_schemeOids.2]

theorem fields_of_seed {s : Seed} (h : Der.Fits s.schemeFields) : fields.whole? s.schemeFields = some s.scheme := by
  have hd : Der.Fits s.derivationFields := by
    have := h.left.sequence (b := Der.Write.tlv 0x30 s.derivationFields) (by simp)
    exact this.contents
  have hfirst := Der.reads_algorithm (t := 0x30) (c := s.derivationFields) isStrict_pbkdf2Oid (by decide)
    h.left
  have hsecond := Der.reads_algorithm (t := 0x04) (c := s.vector) isStrict_aes256Oid (by decide)
    h.right []
  rw [List.append_nil] at hsecond
  apply Der.whole?_of_run
  have hfirst' := hfirst (Der.Write.sequence [Der.Write.oid aes256Oid, Der.Write.tlv 0x04 s.vector])
  simp only [fields, Seed.schemeFields, Der.Write.octetString, StateT.run_bind, hfirst', hsecond,
    derivation?_of_seed hd, cipher?_of_seed, Der.run_ofOption_some, Option.bind_eq_bind, Option.bind_some,
    StateT.run_pure]
  rfl

theorem scheme?_of_seed {s : Seed} (h : Der.Fits s.schemeFields) :
    scheme? ⟨schemeOid, some ⟨0x30, s.schemeFields⟩⟩ = some s.scheme := by
  simp [scheme?, Der.Element.within?, fields_of_seed h]

/-- The algorithm identifier of a seed is read as an identifier for its scheme. -/
theorem reads_seed {s : Seed} (h : Der.Fits s.algorithm) :
    Der.Reads Der.algorithm s.algorithm ⟨schemeOid, some ⟨0x30, s.schemeFields⟩⟩ := by
  rw [s.algorithm_eq] at h ⊢
  exact Der.reads_algorithm isStrict_schemeOid (by decide) h

theorem Seed.fits_schemeFields {s : Seed} (h : Der.Fits s.algorithm) : Der.Fits s.schemeFields := by
  rw [s.algorithm_eq] at h
  have := h.sequence (b := Der.Write.tlv 0x30 s.schemeFields) (by simp)
  exact this.contents

end Pbes2
end CertRotation
