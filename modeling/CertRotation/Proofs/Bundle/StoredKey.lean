import CertRotation.Proofs.Bundle.Leaf

/-!
# The key in a bundle

A key is stored in its normal form, and the leaf of a bundle is found again by the public half that is derived from there.
The normal form is read as the very key that it was made from, so that this is the public half which the leaf was compared
with when the bundle was made.
-/
namespace CertRotation

namespace PrivateKey

/-- A PEM block around the normal form of a key is read as that key, with any password. -/
theorem parse_encoded {text : String} {password : Option String} {k : PrivateKey} (h : parse text password = .ok k)
    (other : Option String) : parse (⟨"PRIVATE KEY", [], k.encoded⟩ : Pem).encode other = .ok k := by
  have hblock : Pem.parse (⟨"PRIVATE KEY", [], k.encoded⟩ : Pem).encode = .ok ⟨"PRIVATE KEY", [], k.encoded⟩ :=
    Pem.parse_encode (by decide) (by decide) k.encoded
  have hplain : ofBlock ⟨"PRIVATE KEY", [], k.encoded⟩ other = ofPkcs8 k.encoded := rfl
  rw [parse, hblock]
  exact hplain.trans (ofPkcs8_encoded h)

end PrivateKey

namespace Bundle
open PemMaterial

/-- A packaged bundle holds the normal form of the key that was compared with its leaf. -/
theorem storedKey_of_package {seeds : Keystore.Seeds} {m : PemMaterial} {password : String} {data : Bytes}
    (h : m.package seeds password = .ok data) :
    ∃ leaf key d, Certificate.ofPem m.certificate = .ok leaf ∧ m.parseKey password = .ok key ∧
      keysMatch leaf key = .ok true ∧ decode data password = .ok d ∧ d.certificate = leaf ∧ d.privateKey = key.encoded := by
  obtain ⟨b, hb, hdecode⟩ := decode_of_package h
  obtain ⟨key, hleaf, -, hkey, hprivate, hbelongs⟩ := toBundle_eq_ok hb
  exact ⟨b.certificate, key, _, hleaf, hkey, keysMatch_eq_ok_true.mpr hbelongs, hdecode, rfl, hprivate⟩

/-- Whatever form a key came in, its normal form is read as the same key again. So what is derived from the key in a bundle,
when its leaf is looked for, is all that the leaf was compared with when the bundle was made. -/
theorem normalForm_fixed :
    (∀ text password k, PrivateKey.parse text password = .ok k →
      ∀ other, PrivateKey.parse (⟨"PRIVATE KEY", [], k.encoded⟩ : Pem).encode other = .ok k) ∧
    ∀ (seeds : Keystore.Seeds) (m : PemMaterial) password data, m.package seeds password = .ok data →
      ∃ leaf key d, Certificate.ofPem m.certificate = .ok leaf ∧ m.parseKey password = .ok key ∧
        keysMatch leaf key = .ok true ∧ decode data password = .ok d ∧ d.certificate = leaf ∧
        inspectKey? d.privateKey = some key ∧
        ∀ certificates, leafIndex d.privateKey certificates = (certificates.findIdx? (belongsTo key)).getD 0 := by
  refine ⟨fun text password k h other => PrivateKey.parse_encoded h other, fun seeds m password data h => ?_⟩
  obtain ⟨leaf, key, d, hleaf, hkey, hmatch, hdecode, hcertificate, hprivate⟩ := storedKey_of_package h
  have hinspect : inspectKey? d.privateKey = some key := by
    rw [inspectKey?_eq, hprivate, PrivateKey.parse_encoded (mapError_eq_ok.mp hkey)]
    rfl
  refine ⟨leaf, key, d, hleaf, hkey, hmatch, hdecode, hcertificate, hinspect, fun certificates => ?_⟩
  rw [leafIndex, hinspect]

theorem normalForm_fixed_sample : ∃ k data d, PrivateKey.parse sample.privateKey (some "password") = .ok k ∧
    PrivateKey.parse (⟨"PRIVATE KEY", [], k.encoded⟩ : Pem).encode none = .ok k ∧
    sample.package sampleSeeds "password" = .ok data ∧ decode data "password" = .ok d ∧
    inspectKey? d.privateKey = some k := by
  obtain ⟨data, hdata⟩ := exists_package_sample
  obtain ⟨leaf, key, d, -, hkey, -, hdecode, -, hinspect, -⟩ := normalForm_fixed.2 _ _ _ _ hdata
  have hparse : PrivateKey.parse sample.privateKey (some "password") = .ok key := mapError_eq_ok.mp hkey
  exact ⟨key, data, d, hparse, normalForm_fixed.1 _ _ _ hparse none, hdata, hdecode, hinspect⟩

end Bundle
end CertRotation
