import CertRotation.Bundle.Packaging
import CertRotation.Proofs.Encryption.SchemeRoundTrip

/-!
# Sizes of keystores

The length of a keystore depends on the sizes of its random seeds only, and nothing but its length can keep it from being
written under other seeds. Whether material can be packaged is therefore the same for all seeds of the same sizes.
-/
namespace CertRotation

section
variable {c c' : Bytes}

theorem Der.Write.length_tlv_congr (tag : UInt8) (h : c.length = c'.length) :
    (Der.Write.tlv tag c).length = (Der.Write.tlv tag c').length := by
  simp [Der.Write.tlv, h]

theorem Der.Write.length_sequence_congr {items items' : List Bytes}
    (h : List.Forall₂ (fun c c' => c.length = c'.length) items items') :
    (Der.Write.sequence items).length = (Der.Write.sequence items').length := by
  refine Der.Write.length_tlv_congr 0x30 ?_
  induction h with
  | nil => rfl
  | cons hc _ ih => simp [hc, ih]

end

/-- A keyed hash has 32 octets whatever is hashed. -/
theorem Keystore.Mac.length_compute (password salt : Bytes) (rounds : Nat) (contents : Bytes) :
    (compute sha256 password salt rounds contents).length = 32 := by
  simp [compute, hmac, Hmac.Key.tag, Hash.finish, sha256, Sha256.output, Sha256.octets]

namespace Pbes2
variable {s s' : Seed}

theorem Seed.length_encrypt_congr (s s' : Seed) {plain plain' : Bytes} (password : Bytes) (h : plain.length = plain'.length) :
    (s.encrypt password plain).length = (s'.encrypt password plain').length := by
  rw [s.length_encrypt, s'.length_encrypt, h]

theorem Seed.length_algorithm_congr (h : s.salt.length = s'.salt.length) :
    s.algorithm.length = s'.algorithm.length := by
  have hvector : s.vector.length = s'.vector.length := s.length_vector.trans s'.length_vector.symm
  have hsalt := Der.Write.length_tlv_congr 0x04 h
  have hfields : s.derivationFields.length = s'.derivationFields.length := by
    simp [Seed.derivationFields, Der.Write.octetString, hsalt]
  have hscheme : s.schemeFields.length = s'.schemeFields.length := by
    rw [Seed.schemeFields, Seed.schemeFields, List.length_append, List.length_append]
    exact congrArg₂ (· + ·)
      (Der.Write.length_sequence_congr (.cons rfl (.cons (Der.Write.length_tlv_congr 0x30 hfields) .nil)))
      (Der.Write.length_sequence_congr (.cons rfl (.cons (Der.Write.length_tlv_congr 0x04 hvector) .nil)))
  rw [s.algorithm_eq, s'.algorithm_eq]
  exact Der.Write.length_sequence_congr (.cons rfl (.cons (Der.Write.length_tlv_congr 0x30 hscheme) .nil))

end Pbes2

namespace Keystore

/-- The seeds differ in their octets only. -/
structure Seeds.SameSizes (s s' : Seeds) : Prop where
  certificates : s.certificates.salt.length = s'.certificates.salt.length
  key : s.key.salt.length = s'.key.salt.length
  mac : s.mac.length = s'.mac.length

theorem length_encodeEncrypted_congr {s s' : Pbes2.Seed} (password : String) (contents : Bytes)
    (h : s.salt.length = s'.salt.length) :
    (encodeEncrypted s password contents).length = (encodeEncrypted s' password contents).length := by
  have htext := Der.Write.length_tlv_congr (0x80 ||| 0)
    (Pbes2.Seed.length_encrypt_congr s s' (Bytes.ofString password) (rfl : contents.length = _))
  have hinner := Der.Write.length_sequence_congr (.cons (rfl : (Der.Write.oid dataOid).length = _)
    (.cons (Pbes2.Seed.length_algorithm_congr h) (.cons htext .nil)))
  have hfields := Der.Write.length_sequence_congr (.cons (rfl : (Der.Write.natural 0).length = _) (.cons hinner .nil))
  exact Der.Write.length_sequence_congr
    (.cons rfl (.cons (Der.Write.length_tlv_congr (0xa0 ||| 0) hfields) .nil))

theorem length_encodePlain_congr {contents contents' : Bytes} (h : contents.length = contents'.length) :
    (encodePlain contents).length = (encodePlain contents').length :=
  Der.Write.length_sequence_congr (.cons rfl (.cons
    (Der.Write.length_tlv_congr (0xa0 ||| 0) (Der.Write.length_tlv_congr 0x04 h)) .nil))

/-- Bags of keys have the same length under seeds of the same sizes. -/
theorem encodeKey?_congr {s s' : Pbes2.Seed} {password : String} {key bag : Bytes} {a : Attributes}
    (h : s.salt.length = s'.salt.length) (hbag : encodeKey? s password key a = some bag) :
    ∃ bag', encodeKey? s' password key a = some bag' ∧ bag.length = bag'.length := by
  obtain ⟨attributes, ha, rfl⟩ := Option.map_eq_some_iff.mp hbag
  have htext := Der.Write.length_tlv_congr 0x04
    (Pbes2.Seed.length_encrypt_congr s s' (Bytes.ofString password) (rfl : key.length = _))
  have hvalue := Der.Write.length_sequence_congr (.cons (Pbes2.Seed.length_algorithm_congr h) (.cons htext .nil))
  exact ⟨_, Option.map_eq_some_iff.mpr ⟨attributes, ha, rfl⟩, Der.Write.length_sequence_congr
    (.cons rfl (.cons (Der.Write.length_tlv_congr (0xa0 ||| 0) hvalue) (.cons rfl .nil)))⟩

theorem seal?_congr {salt salt' : Bytes} {password : String} {parts parts' : List Bytes} {file : Bytes}
    (hs : salt.length = salt'.length) (hp : List.Forall₂ (fun c c' => c.length = c'.length) parts parts')
    (hfile : seal? salt password parts = some file) :
    ∃ file', seal? salt' password parts' = some file' ∧ file.length = file'.length := by
  obtain ⟨units, hunits, rfl⟩ := Option.map_eq_some_iff.mp hfile
  have hbody := Der.Write.length_sequence_congr hp
  have hdigest := Der.Write.length_tlv_congr 0x04
    ((Mac.length_compute units salt Pbes2.rounds (Der.Write.sequence parts)).trans
      (Mac.length_compute units salt' Pbes2.rounds (Der.Write.sequence parts')).symm)
  have hmac := Der.Write.length_sequence_congr (.cons
    (Der.Write.length_sequence_congr (.cons
      (rfl : (Der.Write.sequence [Der.Write.oid Mac.sha256Oid, Der.Write.null]).length = _) (.cons hdigest .nil)))
    (.cons (Der.Write.length_tlv_congr 0x04 hs) (.cons (rfl : (Der.Write.natural Pbes2.rounds).length = _) .nil)))
  exact ⟨_, Option.map_eq_some_iff.mpr ⟨units, hunits, rfl⟩, Der.Write.length_sequence_congr
    (.cons rfl (.cons (length_encodePlain_congr hbody) (.cons hmac .nil)))⟩

/-- What can be written can be written under all seeds of the same sizes. -/
theorem write_congr {s s' : Seeds} {password label : String} {key id file : Bytes}
    {certificates : List StoredCertificate} (h : s.SameSizes s')
    (hfile : write s password label key id certificates = some file) :
    ∃ file', write s' password label key id certificates = some file' := by
  obtain ⟨bags, hbags, hfile⟩ := Option.bind_eq_some_iff.mp hfile
  obtain ⟨keyBag, hkey, hfile⟩ := Option.bind_eq_some_iff.mp hfile
  obtain ⟨sealed, hseal, hfile⟩ := Option.bind_eq_some_iff.mp hfile
  obtain ⟨keyBag', hkey', hlength⟩ := encodeKey?_congr h.key hkey
  have hcertificates := length_encodeEncrypted_congr password (Der.Write.sequence bags) h.certificates
  have hplain := length_encodePlain_congr (Der.Write.length_sequence_congr (.cons hlength .nil))
  obtain ⟨sealed', hseal', hsize⟩ := seal?_congr h.mac (.cons hcertificates (.cons hplain .nil)) hseal
  have hfits : sealed'.length ≤ Der.maxLength := by
    unfold fitting? at hfile
    split at hfile
    · next hle => exact hsize ▸ hle
    · simp at hfile
  exact ⟨sealed', Option.bind_eq_some_iff.mpr ⟨bags, hbags, Option.bind_eq_some_iff.mpr ⟨keyBag', hkey',
    Option.bind_eq_some_iff.mpr ⟨sealed', hseal', if_pos hfits⟩⟩⟩⟩

end Keystore

/-- Material that can be packaged can be packaged under all seeds of the same sizes. -/
theorem PemMaterial.package_congr {s s' : Keystore.Seeds} {m : PemMaterial} {password : String} {data : Bytes}
    (h : s.SameSizes s') (hdata : m.package s password = .ok data) : ∃ data', m.package s' password = .ok data' := by
  obtain ⟨b, hb, hencode⟩ := bind_eq_ok.mp hdata
  unfold Bundle.encode at hencode
  obtain ⟨hpassword, hencode⟩ := guard_eq_ok.mp hencode
  obtain ⟨certificates, hcertificates, hencode⟩ := bind_eq_ok.mp hencode
  cases hwrite : Keystore.write s password Bundle.label b.privateKey (sha256.digest b.certificate) certificates with
  | none => simp [hwrite, throw, throwThe, MonadExceptOf.throw] at hencode
  | some file =>
    obtain ⟨file', hwrite'⟩ := Keystore.write_congr h hwrite
    refine ⟨file', bind_eq_ok.mpr ⟨b, hb, ?_⟩⟩
    rw [Bundle.encode, if_neg hpassword]
    refine bind_eq_ok.mpr ⟨certificates, hcertificates, ?_⟩
    rw [hwrite']
    rfl

end CertRotation
