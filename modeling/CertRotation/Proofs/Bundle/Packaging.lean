import CertRotation.Bundle.Packaging
import CertRotation.Proofs.Bundle.RoundTrip
import CertRotation.Proofs.Key.Normalisation
import CertRotation.Proofs.Keystore.Capacity
import CertRotation.Proofs.Pem.RoundTrip

/-!
# What decoding finds of packaged material

Packaging checks that the key and the leaf belong together, and therefore decoding finds the same leaf again, whatever
else the chain holds. Of the chain it finds the issuers of the leaf.
-/
namespace CertRotation.Bundle

/-! ## The issuers that are kept -/

/-- Every certificate on the way to the issuers is one of those that were stored. -/
theorem mem_of_mem_issuers {candidates : List Keystore.StoredCertificate} {leafSubject issuer : String} {fuel : Nat}
    {c : Keystore.StoredCertificate} (h : c ∈ Keystore.issuers candidates leafSubject fuel issuer) :
    c ∈ candidates := by
  induction fuel generalizing issuer with
  | zero => simp [Keystore.issuers] at h
  | succ fuel ih =>
    rw [Keystore.issuers] at h
    split at h
    · simp at h
    · next d hd =>
      have hmem := List.mem_of_find?_eq_some hd
      split at h
      · simp at h
      · split at h
        · rwa [List.mem_singleton.mp h]
        · rcases List.mem_cons.mp h with rfl | h
          · exact hmem
          · exact ih h

theorem mem_of_mem_issuerPath {leaf der : Bytes} {chain : List Bytes} (h : der ∈ issuerPath leaf chain) :
    der ∈ leaf :: chain := by
  unfold issuerPath at h
  split at h
  · next c rest hstored =>
    obtain ⟨d, hd, rfl⟩ := List.mem_map.mp h
    obtain ⟨der, hder, hofDer⟩ := exists_of_mem_right (mapM_eq_some.mp hstored) (mem_of_mem_issuers hd)
    rwa [(Keystore.ofDer?_der hofDer).1]
  · simp at h

/-! ## Material -/

theorem toBundle_eq_ok {m : PemMaterial} {password : String} {b : Bundle} (h : m.toBundle password = .ok b) :
    ∃ key, Certificate.ofPem m.certificate = .ok b.certificate ∧ PemMaterial.decodeChain m.chain = .ok b.chain ∧
      m.parseKey password = .ok key ∧ b.privateKey = key.encoded ∧ belongsTo key b.certificate = true := by
  unfold PemMaterial.toBundle at h
  obtain ⟨-, h⟩ := guard_eq_ok.mp h
  obtain ⟨-, h⟩ := guard_eq_ok.mp h
  obtain ⟨-, h⟩ := guard_eq_ok.mp h
  obtain ⟨leaf, hleaf, h⟩ := bind_eq_ok.mp h
  obtain ⟨chain, hchain, h⟩ := bind_eq_ok.mp h
  obtain ⟨key, hkey, h⟩ := bind_eq_ok.mp h
  obtain ⟨fits, hmatch, h⟩ := bind_eq_ok.mp h
  obtain ⟨hfits, h⟩ := guard_eq_ok.mp h
  obtain rfl := Except.ok.inj h
  refine ⟨key, mapError_eq_ok.mp hleaf, hchain, hkey, rfl, ?_⟩
  obtain ⟨c, hc, hkeys⟩ := bind_eq_ok.mp hmatch
  have hparse := mapError_eq_ok.mp hc
  have hkeys := Except.ok.inj hkeys
  simp only [belongsTo, hparse, hkeys]
  simpa using hfits

/-- Material whose parts are sound makes a bundle. -/
theorem toBundle_of_sound {m : PemMaterial} {password : String} {leaf : Bytes} {chain : List Bytes} {key : PrivateKey}
    (hp : password ≠ "") (hc : Text.isBlankText m.certificate = false) (hk : Text.isBlankText m.privateKey = false)
    (hleaf : Certificate.ofPem m.certificate = .ok leaf) (hchain : PemMaterial.decodeChain m.chain = .ok chain)
    (hkey : m.parseKey password = .ok key) (hmatch : PemMaterial.keysMatch leaf key = .ok true) :
    m.toBundle password = .ok ⟨key.encoded, leaf, chain⟩ := by
  unfold PemMaterial.toBundle
  refine guard_eq_ok.mpr ⟨hp, guard_eq_ok.mpr ⟨by simp [hc], guard_eq_ok.mpr ⟨by simp [hk], ?_⟩⟩⟩
  refine bind_eq_ok.mpr ⟨leaf, mapError_eq_ok.mpr hleaf, bind_eq_ok.mpr ⟨chain, hchain, bind_eq_ok.mpr ⟨key, hkey, ?_⟩⟩⟩
  exact bind_eq_ok.mpr ⟨true, hmatch, guard_eq_ok.mpr ⟨by simp, rfl⟩⟩

/-- What is decoded is the bundle that was packaged, but for the chain. -/
theorem decode_of_package {seeds : Keystore.Seeds} {m : PemMaterial} {password : String} {data : Bytes}
    (h : m.package seeds password = .ok data) :
    ∃ b, m.toBundle password = .ok b ∧ decode data password = .ok ⟨b.privateKey, b.certificate,
      orderChain b.certificate
        ((issuerPath b.certificate b.chain).filter fun der => !der == b.certificate).eraseDups⟩ := by
  obtain ⟨b, hb, hencode⟩ := bind_eq_ok.mp h
  obtain ⟨key, -, -, hkey, hprivate, hbelongs⟩ := toBundle_eq_ok hb
  refine ⟨b, hb, decode_encode hencode ?_⟩
  rw [hprivate]
  intro k hk
  rw [inspectKey?, PrivateKey.ofPkcs8_encoded (mapError_eq_ok.mp hkey)] at hk
  obtain rfl := Option.some.inj hk
  exact hbelongs

theorem mem_keptChain {leaf c : Bytes} {chain : List Bytes} :
    c ∈ orderChain leaf ((issuerPath leaf chain).filter fun der => !der == leaf).eraseDups ↔
      c ≠ leaf ∧ c ∈ issuerPath leaf chain := by
  rw [(perm_orderChain leaf _).mem_iff, List.mem_eraseDups, List.mem_filter]
  simp [and_comm]

/-- Packaged material is decoded with its key in normal form and with its leaf. Of the chain those certificates come
back that stand on the way to the issuers of the leaf; so nothing is lost exactly if all of them do. -/
theorem decode_package {seeds : Keystore.Seeds} {m : PemMaterial} {password : String} {data : Bytes}
    (h : m.package seeds password = .ok data) :
    ∃ leaf chain key d, Certificate.ofPem m.certificate = .ok leaf ∧ PemMaterial.decodeChain m.chain = .ok chain ∧
      m.parseKey password = .ok key ∧ decode data password = .ok d ∧ d.privateKey = key.encoded ∧
      d.certificate = leaf ∧ d.chain.Nodup ∧ (∀ c, c ∈ d.chain ↔ c ≠ leaf ∧ c ∈ issuerPath leaf chain) ∧
      ((∀ c, c ∈ d.chain ↔ c ≠ leaf ∧ c ∈ chain) ↔ ∀ c ∈ chain, c ≠ leaf → c ∈ issuerPath leaf chain) := by
  obtain ⟨b, hb, hdecode⟩ := decode_of_package h
  obtain ⟨key, hleaf, hchain, hkey, hprivate, -⟩ := toBundle_eq_ok hb
  refine ⟨b.certificate, b.chain, key, _, hleaf, hchain, hkey, hdecode, hprivate, rfl,
    (perm_orderChain _ _).nodup_iff.mpr (nodup_eraseDups _), fun c => mem_keptChain, ?_⟩
  simp only [mem_keptChain]
  constructor
  · intro hall c hc hne
    exact ((hall c).mpr ⟨hne, hc⟩).2
  · intro hall c
    constructor
    · rintro ⟨hne, hc⟩
      exact ⟨hne, (List.mem_cons.mp (mem_of_mem_issuerPath hc)).resolve_left hne⟩
    · rintro ⟨hne, hc⟩
      exact ⟨hne, hall c hc hne⟩

/-! ## Material that can be packaged -/

/-- A bundle of moderate size whose names have an encoding can be encoded. -/
theorem exists_encode (seeds : Keystore.Seeds) {b : Bundle} {password : String}
    {certificates : List Keystore.StoredCertificate} (hp : password ≠ "")
    (hu : password.toList.all Utf16.isBasic = true)
    (hc : (b.certificate :: b.chain).mapM (fun der => Keystore.StoredCertificate.ofDer? der {}) = some certificates)
    (hb : ∀ c ∈ certificates, c.subject.toList.all Utf16.isBasic = true)
    (hr : Keystore.room certificates < 0x100000) (hk : b.privateKey.length < 0x80000)
    (hs : seeds.certificates.salt.length + seeds.key.salt.length + seeds.mac.length < 0x100000) :
    ∃ data, b.encode seeds password = .ok data := by
  have hstored : (b.certificate :: b.chain).mapM stored = .ok certificates := by
    rw [mapM_eq_ok]
    simpa only [stored_eq_ok] using mapM_eq_some.mp hc
  have hlabel : label.length = 11 := by decide
  have hdigest : (sha256.digest b.certificate).length ≤ 32 := List.length_take_le _ _
  obtain ⟨data, hdata⟩ := Keystore.exists_write seeds label b.privateKey hu
    (by decide) hdigest hb hr (by omega) hs
  refine ⟨data, ?_⟩
  unfold encode
  refine guard_eq_ok.mpr ⟨hp, bind_eq_ok.mpr ⟨certificates, hstored, ?_⟩⟩
  rw [hdata]
  rfl

/-- A key too small for use, but sound. -/
def sampleKey : RsaKey := ⟨55, 3, 27, 5, 11⟩

/-- Certificates for `sampleKey` without names, told apart by their serial numbers. -/
def sampleCertificate (serial : Nat) : Bytes :=
  Der.Write.sequence [
    Der.Write.sequence [Der.Write.natural serial, Der.Write.sequence [Der.Write.oid RsaKey.oid], Der.Write.sequence [],
      Der.Write.sequence [Der.Write.tlv 0x17 (Bytes.ofString "250101000000Z"),
        Der.Write.tlv 0x17 (Bytes.ofString "260101000000Z")],
      Der.Write.sequence [], sampleKey.publicKey],
    Der.Write.sequence [Der.Write.oid RsaKey.oid], Der.Write.bitString [0]]

def samplePem (serial : Nat) : String := (⟨"CERTIFICATE", [], sampleCertificate serial⟩ : Pem).encode

/-- Material whose chain holds a certificate that is no issuer of the leaf. -/
def sample : PemMaterial where
  certificate := samplePem 1
  privateKey := (⟨"RSA PRIVATE KEY", [], sampleKey.encode?.getD []⟩ : Pem).encode
  chain := [samplePem 2]

def sampleBundle : Bundle :=
  ⟨PrivateKey.wrap RsaKey.algorithm (sampleKey.encode?.getD []), sampleCertificate 1, [sampleCertificate 2]⟩

def sampleSeeds : Keystore.Seeds := ⟨⟨[], []⟩, ⟨[], []⟩, []⟩

/-- The certificates are sound and small, and they belong to the key. -/
theorem sampleCertificate_sound :
    (Certificate.parse (sampleCertificate 1)).isOk = true ∧ (Certificate.parse (sampleCertificate 2)).isOk = true ∧
      PemMaterial.keysMatch (sampleCertificate 1) ⟨.rsa, sampleBundle.privateKey, sampleKey.publicKey⟩ = .ok true ∧
      (sampleCertificate 1).length < 0x10000 ∧ (sampleCertificate 2).length < 0x10000 ∧
      sampleBundle.privateKey.length < 0x80000 := by
  decide +kernel

theorem ofPem_samplePem :
    Certificate.ofPem (samplePem 1) = .ok (sampleCertificate 1) ∧
      Certificate.ofPem (samplePem 2) = .ok (sampleCertificate 2) :=
  ⟨Certificate.ofPem_encode sampleCertificate_sound.1, Certificate.ofPem_encode sampleCertificate_sound.2.1⟩

theorem parseKey_sample : sample.parseKey "password" = .ok ⟨.rsa, sampleBundle.privateKey, sampleKey.publicKey⟩ := by
  have hblock : Pem.parse sample.privateKey = .ok ⟨"RSA PRIVATE KEY", [], sampleKey.encode?.getD []⟩ :=
    Pem.parse_encode (by decide) (by decide) _
  rw [PemMaterial.parseKey, PrivateKey.parse, hblock]
  decide +kernel

theorem toBundle_sample : sample.toBundle "password" = .ok sampleBundle := by
  obtain ⟨hleaf, hissuer⟩ := ofPem_samplePem
  have hc : Text.isBlankText sample.certificate = false := Pem.isBlankText_encode "CERTIFICATE" (sampleCertificate 1)
  have hk : Text.isBlankText sample.privateKey = false :=
    Pem.isBlankText_encode "RSA PRIVATE KEY" (sampleKey.encode?.getD [])
  have hchain : PemMaterial.decodeChain sample.chain = .ok [sampleCertificate 2] := by
    rw [show sample.chain = [samplePem 2] from rfl, PemMaterial.decodeChain, PemMaterial.decodeChainFrom, hissuer]
    rfl
  exact toBundle_of_sound (by decide) hc hk hleaf hchain parseKey_sample sampleCertificate_sound.2.2.1

theorem ofDer?_sampleCertificate :
    [sampleCertificate 1, sampleCertificate 2].mapM (fun der => Keystore.StoredCertificate.ofDer? der {}) =
      some [⟨sampleCertificate 1, "", "", {}⟩, ⟨sampleCertificate 2, "", "", {}⟩] := by decide +kernel

theorem ofDer?_leaf : Keystore.StoredCertificate.ofDer? (sampleCertificate 1) {} = some ⟨sampleCertificate 1, "", "", {}⟩ :=
  (List.forall₂_cons.mp (mapM_eq_some.mp ofDer?_sampleCertificate)).1

theorem issuerPath_sampleCertificate : issuerPath (sampleCertificate 1) [sampleCertificate 2] = [] := by
  rw [issuerPath, ofDer?_sampleCertificate]
  decide

theorem room_two {a b : Bytes} {s u : String} (ha : a.length < 0x10000) (hb : b.length < 0x10000) (hs : s.length < 0x100)
    (hu : u.length < 0x100) : Keystore.room [⟨a, s, "", {}⟩, ⟨b, u, "", {}⟩] < 0x100000 := by
  simp only [Keystore.room, List.map_cons, List.map_nil, List.sum_cons, List.sum_nil]
  omega

theorem room_one {a : Bytes} {s : String} (ha : a.length < 0x10000) (hs : s.length < 0x100) :
    Keystore.room [⟨a, s, "", {}⟩] < 0x100000 := by
  have hroom : Keystore.room [⟨a, s, "", {}⟩] ≤ Keystore.room [⟨a, s, "", {}⟩, ⟨a, s, "", {}⟩] := by
    simp [Keystore.room]
  exact hroom.trans_lt (room_two ha ha hs hs)

theorem exists_encode_small {b : Bundle} {certificates : List Keystore.StoredCertificate}
    (h : (b.certificate :: b.chain).mapM (fun der => Keystore.StoredCertificate.ofDer? der {}) = some certificates)
    (hsubjects : certificates.all (fun c => c.subject.toList.all Utf16.isBasic) = true)
    (hroom : Keystore.room certificates < 0x100000) (hkey : b.privateKey.length < 0x80000) :
    ∃ data, b.encode sampleSeeds "password" = .ok data :=
  exists_encode sampleSeeds (show "password" ≠ "" by decide) (by decide) h (List.all_eq_true.mp hsubjects) hroom hkey
    (by decide)

theorem exists_package_sample : ∃ data, sample.package sampleSeeds "password" = .ok data := by
  obtain ⟨-, -, -, hleaf, hissuer, hkey⟩ := sampleCertificate_sound
  have hencode : ∃ data, sampleBundle.encode sampleSeeds "password" = .ok data :=
    exists_encode_small ofDer?_sampleCertificate (by decide) (room_two hleaf hissuer (by decide) (by decide)) hkey
  obtain ⟨data, hdata⟩ := hencode
  exact ⟨data, bind_eq_ok.mpr ⟨sampleBundle, toBundle_sample, hdata⟩⟩

theorem decode_package_sample : ∃ data d, sample.package sampleSeeds "password" = .ok data ∧
    decode data "password" = .ok d ∧ d.certificate = sampleCertificate 1 := by
  obtain ⟨data, hdata⟩ := exists_package_sample
  obtain ⟨leaf, chain, key, d, hleaf, -, -, hd, -, hcertificate, -⟩ := decode_package hdata
  obtain ⟨_, hleaf', -⟩ := toBundle_eq_ok toBundle_sample
  rw [hleaf] at hleaf'
  exact ⟨data, d, hdata, hd, hcertificate.trans (Except.ok.inj hleaf')⟩

/-- A certificate of the chain that is no issuer of the leaf is packaged without an error, and not found again. -/
theorem sample_certificate_lost : ∃ data d, sample.package sampleSeeds "password" = .ok data ∧
    decode data "password" = .ok d ∧ sampleCertificate 2 ∈ sampleBundle.chain ∧
      sampleCertificate 2 ≠ d.certificate ∧ sampleCertificate 2 ∉ d.chain := by
  obtain ⟨data, hdata⟩ := exists_package_sample
  obtain ⟨b, hb, hdecode⟩ := decode_of_package hdata
  obtain rfl : sampleBundle = b := by
    rw [toBundle_sample] at hb
    exact Except.ok.inj hb
  refine ⟨data, _, hdata, hdecode, List.mem_singleton_self _, ?_, ?_⟩
  · show sampleCertificate 2 ≠ sampleCertificate 1
    decide +kernel
  · rw [mem_keptChain]
    show ¬ (_ ∧ sampleCertificate 2 ∈ issuerPath (sampleCertificate 1) [sampleCertificate 2])
    rw [issuerPath_sampleCertificate]
    simp

end CertRotation.Bundle
