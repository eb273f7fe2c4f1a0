import CertRotation.Proofs.Bundle.Entries
import CertRotation.Proofs.Bundle.Packaging

/-!
# The leaf and the key

The leaf of a bundle that is decoded carries the public half of the key whenever a certificate in the file does. If none
does, the first certificate of the file is taken for the leaf all the same, and such files can be written.
-/
namespace CertRotation.Bundle
open PemMaterial

section
variable {key leaf : Bytes} {k : PrivateKey} {certificates : List Bytes}

theorem keysMatch_eq_ok_true {der : Bytes} : keysMatch der k = .ok true ↔ belongsTo k der = true := by
  unfold keysMatch belongsTo
  cases Certificate.parse der with
  | error e => exact ⟨nofun, nofun⟩
  | ok c => exact ⟨Except.ok.inj, congrArg Except.ok⟩

/-- How a leaf is chosen for the key `k`: it carries the public half of the key if any of the certificates does, and
otherwise it is the first of them. -/
structure Chosen (k : PrivateKey) (certificates : List Bytes) (leaf : Bytes) : Prop where
  mem : leaf ∈ certificates
  carries : keysMatch leaf k = .ok true ↔ ∃ c ∈ certificates, keysMatch c k = .ok true
  otherwise : (∀ c ∈ certificates, keysMatch c k ≠ .ok true) → certificates.head? = some leaf

theorem chosen_of_leafOf? (hk : PrivateKey.ofPkcs8 key = .ok k) (h : leafOf? key certificates = some leaf) :
    Chosen k certificates leaf := by
  have hinspect : (PrivateKey.parse (⟨"PRIVATE KEY", [], key⟩ : Pem).encode none).toOption = some k := by
    rw [← inspectKey?_eq, inspectKey?, hk]
    rfl
  unfold leafOf? at h
  rw [hinspect] at h
  dsimp only at h
  cases hfind : certificates.find? (belongsTo k) with
  | some c =>
    rw [hfind, Option.some_or] at h
    obtain rfl := Option.some.inj h
    have hmem := List.mem_of_find?_eq_some hfind
    have hcarries := keysMatch_eq_ok_true.mpr (List.find?_some hfind)
    exact ⟨hmem, ⟨fun _ => ⟨c, hmem, hcarries⟩, fun _ => hcarries⟩, fun hnone => absurd hcarries (hnone c hmem)⟩
  | none =>
    rw [hfind, Option.none_or] at h
    have hmem := List.mem_of_head? h
    have hnone : ∀ c ∈ certificates, keysMatch c k ≠ .ok true := fun c hc hcarries =>
      List.find?_eq_none.mp hfind c hc (keysMatch_eq_ok_true.mp hcarries)
    refine ⟨hmem, ⟨fun hcarries => ⟨leaf, hmem, hcarries⟩, fun hany => ?_⟩, fun _ => h⟩
    obtain ⟨c, hc, hcarries⟩ := hany
    exact absurd hcarries (hnone c hc)

theorem leaf_of_ofEntries {entries : List Keystore.Entry} {d : Bundle} (h : ofEntries entries = .ok d) :
    keyOf? entries = some d.privateKey ∧ leafOf? d.privateKey (certificatesOf entries) = some d.certificate := by
  unfold ofEntries at h
  split at h
  · cases h
  · next key hkey =>
    dsimp only at h
    split at h
    · cases h
    · next leaf hleaf =>
      obtain rfl := Except.ok.inj h
      rw [getElem?_leafIndex, leafOf?_eraseDups] at hleaf
      exact ⟨hkey, hleaf⟩

theorem decode_eq_ok {data : Bytes} {password : String} {d : Bundle} (h : decode data password = .ok d) :
    ∃ named, Keystore.read data password = .ok named ∧ ofEntries (named.map (·.2)) = .ok d := by
  unfold decode at h
  split at h
  · cases h
  · next named hread => exact ⟨named, hread, mapError_eq_ok.mp h⟩

theorem exists_ofEntries {entries : List Keystore.Entry} (hkey : keyOf? entries = some key)
    (hleaf : leafOf? key (certificatesOf entries) = some leaf) :
    ∃ chain, ofEntries entries = .ok ⟨key, leaf, chain⟩ := by
  rw [← leafOf?_eraseDups, ← getElem?_leafIndex] at hleaf
  simp only [ofEntries, hkey, hleaf]
  exact ⟨_, rfl⟩

/-- What has been encoded is decoded, with the same key, whether or not the certificate is one of the key. -/
theorem exists_decode_of_encode {seeds : Keystore.Seeds} {b : Bundle} {password : String} {data : Bytes}
    (h : b.encode seeds password = .ok data) : ∃ d, decode data password = .ok d ∧ d.privateKey = b.privateKey ∧
      leafOf? b.privateKey (b.certificate :: issuerPath b.certificate b.chain) = some d.certificate := by
  have hcertificates : certificatesOf [.keyChain b.privateKey (b.certificate :: issuerPath b.certificate b.chain)] =
      b.certificate :: issuerPath b.certificate b.chain := List.append_nil _
  cases hleaf : leafOf? b.privateKey (b.certificate :: issuerPath b.certificate b.chain) with
  | none => exact absurd (leafOf?_eq_none.mp hleaf) (List.cons_ne_nil _ _)
  | some leaf =>
    obtain ⟨chain, hentries⟩ := exists_ofEntries rfl (hcertificates.symm ▸ hleaf)
    exact ⟨_, (decode_of_read (read_encode h)).trans (mapError_eq_ok.mpr hentries), rfl, rfl⟩

end

/-- The leaf of a bundle that is decoded carries the public half of its key if any certificate of the file does, and
otherwise it is the first of them. Likewise if the file has been encoded: then its certificates are the one that was to
go with the key and the issuers of that. -/
theorem decode_chosen (data : Bytes) (password : String) :
    (∀ d, decode data password = .ok d → ∃ named, Keystore.read data password = .ok named ∧
      ∀ k, PrivateKey.ofPkcs8 d.privateKey = .ok k → Chosen k (certificatesOf (named.map (·.2))) d.certificate) ∧
    ∀ (seeds : Keystore.Seeds) (b : Bundle), b.encode seeds password = .ok data → ∃ d,
      decode data password = .ok d ∧ d.privateKey = b.privateKey ∧ ∀ k, PrivateKey.ofPkcs8 d.privateKey = .ok k →
        Chosen k (b.certificate :: issuerPath b.certificate b.chain) d.certificate := by
  constructor
  · intro d h
    obtain ⟨named, hread, hentries⟩ := decode_eq_ok h
    exact ⟨named, hread, fun k hk => chosen_of_leafOf? hk (leaf_of_ofEntries hentries).2⟩
  · intro seeds b h
    obtain ⟨d, hdecode, hkey, hleaf⟩ := exists_decode_of_encode h
    exact ⟨d, hdecode, hkey, fun k hk => chosen_of_leafOf? (hkey ▸ hk) hleaf⟩

/-! ## A certificate of another key -/

/-- Another key like `sampleKey`. -/
def otherKey : RsaKey := ⟨77, 7, 43, 7, 11⟩

/-- A key with a certificate of another one. -/
def mismatched : Bundle :=
  ⟨PrivateKey.wrap RsaKey.algorithm (otherKey.encode?.getD []), sampleCertificate 1, []⟩

theorem mismatched_sound :
    PrivateKey.ofPkcs8 mismatched.privateKey = .ok ⟨.rsa, mismatched.privateKey, otherKey.publicKey⟩ ∧
      belongsTo ⟨.rsa, mismatched.privateKey, otherKey.publicKey⟩ (sampleCertificate 1) = false ∧
      mismatched.privateKey.length < 0x80000 := by
  decide +kernel

theorem ofPkcs8_mismatched : PrivateKey.ofPkcs8 mismatched.privateKey =
    .ok ⟨.rsa, mismatched.privateKey, otherKey.publicKey⟩ := mismatched_sound.1

theorem ofDer?_mismatched : [sampleCertificate 1].mapM (fun der => Keystore.StoredCertificate.ofDer? der {}) =
    some [⟨sampleCertificate 1, "", "", {}⟩] :=
  mapM_eq_some.mpr (.cons ofDer?_leaf .nil)

theorem issuerPath_mismatched : issuerPath mismatched.certificate mismatched.chain = [] := by
  show issuerPath (sampleCertificate 1) [] = []
  rw [issuerPath, ofDer?_mismatched]
  decide

theorem exists_encode_mismatched : ∃ data, mismatched.encode sampleSeeds "password" = .ok data := by
  obtain ⟨-, -, -, hleaf, -⟩ := sampleCertificate_sound
  exact exists_encode_small ofDer?_mismatched (by decide) (room_one hleaf (by decide)) mismatched_sound.2.2

/-- A key is encoded with a certificate that does not carry its public half, and decoded with that for its leaf. -/
theorem decoded_with_foreign_leaf : ∃ data d k, mismatched.encode sampleSeeds "password" = .ok data ∧
    decode data "password" = .ok d ∧ PrivateKey.ofPkcs8 d.privateKey = .ok k ∧
      keysMatch d.certificate k = .ok false := by
  obtain ⟨data, hdata⟩ := exists_encode_mismatched
  obtain ⟨d, hdecode, hkey, hleaf⟩ := exists_decode_of_encode hdata
  have hmem := (chosen_of_leafOf? ofPkcs8_mismatched hleaf).mem
  rw [issuerPath_mismatched, List.mem_singleton] at hmem
  refine ⟨data, d, ⟨.rsa, mismatched.privateKey, otherKey.publicKey⟩, hdata, hdecode, ?_, ?_⟩
  · rw [hkey]
    exact ofPkcs8_mismatched
  · rw [hmem]
    decide +kernel

end CertRotation.Bundle
