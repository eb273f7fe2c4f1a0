import CertRotation.Proofs.Keystore.WriteRead

/-!
# What always fits into a keystore

Encoding adds little to what is encoded: a few octets for each element, one block for each encryption. Material of
moderate size whose names have an encoding can therefore always be written.
-/
namespace CertRotation

namespace Pbes2

theorem Seed.length_algorithm_le {s : Seed} (h : s.salt.length < 0x1000000) :
    s.algorithm.length ≤ s.salt.length + 128 := by
  have hsalt := Der.Write.length_tlv_le (t := 0x04) (c := s.salt) (by omega)
  have hvector := Der.Write.length_tlv_le (t := 0x04) (c := s.vector) (by rw [s.length_vector]; decide)
  rw [s.length_vector] at hvector
  have hrounds : (Der.Write.natural rounds).length = 4 := by decide
  have hhash : hashAlgorithm.length = 14 := by cbv
  have hinner : s.derivationFields.length ≤ s.salt.length + 24 := by
    simp only [derivationFields, Der.Write.octetString, List.length_append]
    omega
  have hfields := Der.Write.length_tlv_le (t := 0x30) (c := s.derivationFields) (by omega)
  have ho1 : (Der.Write.oid pbkdf2Oid).length = 11 := by cbv
  have ho2 : (Der.Write.oid aes256Oid).length = 11 := by cbv
  have ho3 : (Der.Write.oid schemeOid).length = 11 := by cbv
  have hd := Der.Write.length_sequence_le
    [Der.Write.oid pbkdf2Oid, Der.Write.tlv 0x30 s.derivationFields] (n := s.salt.length + 41)
    (by simp; omega) (by omega)
  have hc := Der.Write.length_sequence_le
    [Der.Write.oid aes256Oid, Der.Write.octetString s.vector] (n := 33)
    (by simp [Der.Write.octetString]; omega) (by omega)
  have hscheme : s.schemeFields.length ≤ s.salt.length + 86 := by
    simp only [schemeFields, List.length_append]
    omega
  have hs := Der.Write.length_tlv_le (t := 0x30) (c := s.schemeFields) (by omega)
  rw [s.algorithm_eq]
  refine le_trans (Der.Write.length_sequence_le _ (n := s.salt.length + 103) ?_ (by omega)) (by omega)
  simp only [List.flatten_cons, List.flatten_nil, List.append_nil, List.length_append]
  omega

/-- An encrypted text under the identifier of its scheme is little longer than the text. -/
theorem Seed.length_identified_le {s : Seed} {text : Bytes} (hs : s.salt.length < 0x1000000)
    (ht : text.length < 0x2000000) :
    (Der.Write.sequence [s.algorithm, Der.Write.octetString text]).length ≤ s.salt.length + text.length + 140 := by
  have halgorithm := Seed.length_algorithm_le hs
  have hoctets := Der.Write.length_tlv_le (t := 0x04) (c := text) (by omega)
  refine Der.Write.length_sequence_le _ (n := s.salt.length + text.length + 134) ?_ (by omega)
  simp only [Der.Write.octetString, List.flatten_cons, List.flatten_nil, List.append_nil, List.length_append]
  omega

end Pbes2

namespace Keystore

/-! ## Attributes and bags -/

theorem length_encodeBasic? {s : String} {b : Bytes} (h : Utf16.encodeBasic? s = some b) : b.length = 2 * s.length := by
  unfold Utf16.encodeBasic? at h
  split at h
  · obtain rfl := Option.some.inj h
    rw [List.length_flatMap, ← String.length_toList]
    simp [List.map_const', Nat.mul_comm]
  · simp at h

theorem encodeBasic?_eq_some {s : String} (h : s.toList.all Utf16.isBasic = true) :
    ∃ b, Utf16.encodeBasic? s = some b := by
  simp [Utf16.encodeBasic?, h]

theorem Attributes.length_encodeOne_le {o : Oid} {t : UInt8} {c : Bytes} (ho : o.isStrict = true)
    (h : c.length < 0x1000000) : (encodeOne o (Der.Write.tlv t c)).length ≤ c.length + 64 := by
  have hlen : o.contents.length ≤ 39 := by
    simp only [Oid.isStrict, Bool.and_eq_true, decide_eq_true_eq] at ho
    exact ho.1.1.1.2
  have hoid := Der.Write.length_tlv_le (t := 0x06) (c := o.contents) (by omega)
  have hvalue := Der.Write.length_tlv_le (t := t) (c := c) (by omega)
  have hset := Der.Write.length_set_le [Der.Write.tlv t c] (n := c.length + 6) (by simpa using hvalue)
    (by omega)
  refine le_trans (Der.Write.length_sequence_le _ (n := c.length + 57) ?_ (by omega)) (by omega)
  simp only [Der.Write.oid, List.flatten_cons, List.flatten_nil, List.append_nil, List.length_append]
  omega

/-- A name in the basic plane can be written, with or without an identifier. -/
theorem Attributes.exists_encode {name : String} (id : Option Bytes) (h : name.toList.all Utf16.isBasic = true)
    (hn : name.length < 0x100000) (hi : ∀ b ∈ id, b.length < 0x100000) :
    ∃ b, encode? { friendlyName := some name, localKeyId := id } = some b ∧
      b.length ≤ 2 * name.length + (id.getD []).length + 160 := by
  obtain ⟨units, hunits⟩ := encodeBasic?_eq_some h
  have hlen := length_encodeBasic? hunits
  have hname := length_encodeOne_le (t := 0x1e) isStrict_friendlyNameOid (c := units) (by omega)
  cases id with
  | none =>
    refine ⟨_, by simp [encode?, hunits]; rfl, ?_⟩
    refine le_trans (Der.Write.length_set_le _ (n := 2 * name.length + 64) ?_ (by omega)) (by simp)
    simpa [hlen] using hname
  | some b =>
    have hb := hi b rfl
    have hid := length_encodeOne_le (t := 0x04) isStrict_localKeyIdOid (c := b) (by omega)
    refine ⟨_, by simp [encode?, hunits]; rfl, ?_⟩
    refine le_trans (Der.Write.length_set_le _ (n := 2 * name.length + b.length + 128) ?_ (by omega)) (by simp)
    simp only [Der.Write.octetString, List.flatten_cons, List.flatten_nil, List.append_nil, List.length_append]
    omega

theorem exists_encodeBag {type : Oid} (value : Bytes) {b : Bytes} {a : Attributes} (ht : type.isStrict = true)
    (ha : a.encode? = some b) (hv : value.length < 0x10000000) (hb : b.length < 0x10000000) :
    ∃ bag, encodeBag? type value a = some bag ∧ bag.length ≤ value.length + b.length + 64 := by
  refine ⟨_, by rw [encodeBag?, ha]; rfl, ?_⟩
  have hlen : type.contents.length ≤ 39 := by
    simp only [Oid.isStrict, Bool.and_eq_true, decide_eq_true_eq] at ht
    exact ht.1.1.1.2
  have hoid := Der.Write.length_tlv_le (t := 0x06) (c := type.contents) (by omega)
  have hvalue := Der.Write.length_tlv_le (t := 0xa0 ||| 0) (c := value) (by omega)
  refine le_trans (Der.Write.length_sequence_le _ (n := value.length + b.length + 51) ?_ (by omega)) (by omega)
  simp only [Der.Write.oid, Der.Write.explicit, List.flatten_cons, List.flatten_nil, List.append_nil,
    List.length_append]
  omega

theorem exists_encodeCertificate (der : Bytes) {b : Bytes} {a : Attributes} (ha : a.encode? = some b)
    (hd : der.length < 0x8000000) (hb : b.length < 0x8000000) :
    ∃ bag, encodeCertificate? der a = some bag ∧ bag.length ≤ der.length + b.length + 128 := by
  have hoctets := Der.Write.length_tlv_le (t := 0x04) (c := der) (by omega)
  have hexplicit := Der.Write.length_tlv_le (t := 0xa0 ||| 0) (c := Der.Write.octetString der)
    (by simp only [Der.Write.octetString]; omega)
  have hoid : (Der.Write.oid Bag.x509Oid).length = 12 := by cbv
  have hvalue : (certificateValue der).length ≤ der.length + 30 := by
    refine le_trans (Der.Write.length_sequence_le _ (n := der.length + 24) ?_ (by omega)) (by omega)
    simp only [Der.Write.explicit, Der.Write.octetString, List.flatten_cons, List.flatten_nil, List.append_nil,
      List.length_append] at hexplicit ⊢
    omega
  obtain ⟨bag, hbag, hlen⟩ := exists_encodeBag (certificateValue der) isStrict_certificateOid ha (by omega)
    (by omega)
  exact ⟨bag, hbag, by omega⟩

theorem exists_encodeKey (seed : Pbes2.Seed) (password : String) (key : Bytes) {b : Bytes} {a : Attributes}
    (ha : a.encode? = some b) (hs : seed.salt.length < 0x1000000) (hk : key.length < 0x1000000)
    (hb : b.length < 0x1000000) :
    ∃ bag, encodeKey? seed password key a = some bag ∧
      bag.length ≤ seed.salt.length + key.length + b.length + 256 := by
  have hencrypt := seed.length_encrypt (Bytes.ofString password) key
  have hvalue : (keyValue seed password key).length ≤ seed.salt.length + key.length + 156 :=
    le_trans (Pbes2.Seed.length_identified_le hs (by omega)) (by omega)
  obtain ⟨bag, hbag, hlen⟩ := exists_encodeBag (keyValue seed password key) isStrict_encryptedKeyOid ha
    (by omega) (by omega)
  exact ⟨bag, hbag, by omega⟩

/-! ## Files -/

theorem length_encodePlain_le (contents : Bytes) (h : contents.length < 0x8000000) :
    (encodePlain contents).length ≤ contents.length + 32 := by
  have hoctets := Der.Write.length_tlv_le (t := 0x04) (c := contents) (by omega)
  have hexplicit := Der.Write.length_tlv_le (t := 0xa0 ||| 0) (c := Der.Write.octetString contents)
    (by simp only [Der.Write.octetString]; omega)
  have hoid : (Der.Write.oid dataOid).length = 11 := by cbv
  refine le_trans (Der.Write.length_sequence_le _ (n := contents.length + 23) ?_ (by omega)) (by omega)
  simp only [Der.Write.explicit, Der.Write.octetString, List.flatten_cons, List.flatten_nil, List.append_nil,
    List.length_append] at hexplicit ⊢
  omega

theorem length_encodeEncrypted_le (seed : Pbes2.Seed) (password : String) (contents : Bytes)
    (h : contents.length < 0x4000000) (hs : seed.salt.length < 0x1000000) :
    (encodeEncrypted seed password contents).length ≤ contents.length + seed.salt.length + 256 := by
  have hencrypt := seed.length_encrypt (Bytes.ofString password) contents
  have halgorithm := Pbes2.Seed.length_algorithm_le hs
  have htext := Der.Write.length_tlv_le (t := 0x80 ||| 0) (c := seed.encrypt (Bytes.ofString password) contents)
    (by omega)
  have hoid : (Der.Write.oid dataOid).length = 11 := by cbv
  have hoid' : (Der.Write.oid encryptedDataOid).length = 11 := by cbv
  have hversion : (Der.Write.natural 0).length = 3 := by decide
  have hinner := Der.Write.length_sequence_le (n := contents.length + seed.salt.length + 161)
    [Der.Write.oid dataOid, seed.algorithm,
      Der.Write.implicit 0 (seed.encrypt (Bytes.ofString password) contents)]
    (by
      simp only [Der.Write.implicit, List.flatten_cons, List.flatten_nil, List.append_nil, List.length_append]
      omega)
    (by omega)
  have hfields := Der.Write.length_sequence_le (n := contents.length + seed.salt.length + 170)
    [Der.Write.natural 0, Der.Write.sequence [Der.Write.oid dataOid, seed.algorithm,
      Der.Write.implicit 0 (seed.encrypt (Bytes.ofString password) contents)]]
    (by
      simp only [List.flatten_cons, List.flatten_nil, List.append_nil, List.length_append]
      omega)
    (by omega)
  have hexplicit := Der.Write.length_tlv_le (t := 0xa0 ||| 0)
    (c := Der.Write.sequence [Der.Write.natural 0, Der.Write.sequence [Der.Write.oid dataOid, seed.algorithm,
      Der.Write.implicit 0 (seed.encrypt (Bytes.ofString password) contents)]]) (by omega)
  refine le_trans (Der.Write.length_sequence_le _ (n := contents.length + seed.salt.length + 193) ?_ (by omega))
    (by omega)
  simp only [Der.Write.explicit, List.flatten_cons, List.flatten_nil, List.append_nil, List.length_append]
  omega

theorem Mac.length_encode_le (units salt body : Bytes) (h : salt.length < 0x1000000) :
    (ofBody units salt body).encode.length ≤ salt.length + 96 := by
  have hdigest : (compute sha256 units salt Pbes2.rounds body).length ≤ 32 := List.length_take_le _ _
  have hdigestOctets := Der.Write.length_tlv_le (t := 0x04) (c := compute sha256 units salt Pbes2.rounds body) (by omega)
  have hsalt := Der.Write.length_tlv_le (t := 0x04) (c := salt) (by omega)
  have halgorithm : (Der.Write.sequence [Der.Write.oid sha256Oid, Der.Write.null]).length = 15 := by cbv
  have hrounds : (Der.Write.natural Pbes2.rounds).length = 4 := by decide
  have hinfo := Der.Write.length_sequence_le (n := 53)
    [Der.Write.sequence [Der.Write.oid sha256Oid, Der.Write.null],
      Der.Write.octetString (compute sha256 units salt Pbes2.rounds body)]
    (by
      simp only [Der.Write.octetString, List.flatten_cons, List.flatten_nil, List.append_nil, List.length_append]
      omega)
    (by omega)
  refine le_trans (Der.Write.length_sequence_le _ (n := salt.length + 69) ?_ (by omega)) (by omega)
  simp only [Der.Write.octetString, List.flatten_cons, List.flatten_nil, List.append_nil, List.length_append] at *
  exact le_trans (Nat.add_le_add hinfo (Nat.add_le_add hsalt hrounds.le)) (by omega)

theorem exists_seal (salt : Bytes) (password : String) (parts : List Bytes)
    (hp : password.toList.all Utf16.isBasic = true) (hs : salt.length < 0x1000000)
    (hl : parts.flatten.length < 0x4000000) :
    ∃ file, seal? salt password parts = some file ∧ file.length ≤ parts.flatten.length + salt.length + 160 := by
  obtain ⟨units, hunits⟩ := encodeBasic?_eq_some hp
  have hseq := Der.Write.length_sequence_le parts le_rfl (by omega)
  have hplain := length_encodePlain_le (Der.Write.sequence parts) (by omega)
  have hmac := Mac.length_encode_le (units ++ [0, 0]) salt (Der.Write.sequence parts) hs
  have hversion : (Der.Write.natural 3).length = 3 := by decide
  refine ⟨_, by rw [seal?, passwordUnits?, hunits]; rfl, ?_⟩
  refine le_trans (Der.Write.length_sequence_le _ (n := parts.flatten.length + salt.length + 140) ?_ (by omega))
    (by omega)
  simp only [List.flatten_cons, List.flatten_nil, List.append_nil, List.length_append, Mac.ofBody] at hmac ⊢
  omega

/-- Room for the bags of certificates. -/
def room (certificates : List StoredCertificate) : Nat :=
  (certificates.map fun c => c.der.length + 2 * c.subject.length + 320).sum

theorem exists_bag {c : StoredCertificate} {name : String} (id : Option Bytes)
    (hb : name.toList.all Utf16.isBasic = true) (hl : c.der.length + 2 * name.length + 320 < 0x100000)
    (hi : ∀ b ∈ id, b.length ≤ 32) :
    ∃ bag, encodeCertificate? c.der { friendlyName := some name, localKeyId := id } = some bag ∧
      bag.length ≤ c.der.length + 2 * name.length + 320 := by
  have hid : (id.getD []).length ≤ 32 := by
    cases id with
    | none => simp
    | some b => exact hi b rfl
  obtain ⟨attributes, ha, hlen⟩ := Attributes.exists_encode id hb (by omega)
    fun b hb' => lt_of_le_of_lt (hi b hb') (by decide)
  obtain ⟨bag, hbag, hbagLen⟩ := exists_encodeCertificate c.der ha (by omega) (by omega)
  exact ⟨bag, hbag, by omega⟩

theorem exists_bags {id : Bytes} {certificates : List StoredCertificate} (hid : id.length ≤ 32)
    (hb : ∀ c ∈ certificates, c.subject.toList.all Utf16.isBasic = true) (hr : room certificates < 0x100000) :
    ∃ bags, (chainAttributes id certificates).mapM (fun c => encodeCertificate? c.1 c.2) = some bags ∧
      bags.flatten.length ≤ room certificates := by
  have hrest : ∀ rest : List StoredCertificate, (∀ c ∈ rest, c.subject.toList.all Utf16.isBasic = true) →
      room rest < 0x100000 →
      ∃ bags, (rest.map fun c => (c.der, ({ friendlyName := some c.subject } : Attributes))).mapM
          (fun c => encodeCertificate? c.1 c.2) = some bags ∧ bags.flatten.length ≤ room rest := by
    intro rest
    induction rest with
    | nil => exact fun _ _ => ⟨[], rfl, by simp⟩
    | cons c rest ih =>
      intro hb hr
      simp only [room, List.map_cons, List.sum_cons] at hr ⊢
      obtain ⟨bag, hbag, hlen⟩ := exists_bag (c := c) none (hb c (by simp)) (by omega) (by simp)
      obtain ⟨bags, hbags, hlens⟩ := ih (fun d hd => hb d (by simp [hd])) (by simp only [room]; omega)
      refine ⟨bag :: bags, ?_, ?_⟩
      · rw [List.mapM_cons, hbag, hbags]
        rfl
      · simp only [room, List.flatten_cons, List.length_append] at hlens ⊢
        omega
  cases certificates with
  | nil => exact ⟨[], rfl, by simp⟩
  | cons leaf rest =>
    simp only [room, List.map_cons, List.sum_cons] at hr ⊢
    obtain ⟨bag, hbag, hlen⟩ := exists_bag (c := leaf) (some id) (hb leaf (by simp)) (by omega) (by simpa)
    obtain ⟨bags, hbags, hlens⟩ := hrest rest (fun d hd => hb d (by simp [hd])) (by simp only [room]; omega)
    refine ⟨bag :: bags, ?_, ?_⟩
    · rw [chainAttributes, List.mapM_cons, hbag, hbags]
      rfl
    · simp only [room, List.flatten_cons, List.length_append] at hlens ⊢
      omega

/-- Moderate material whose names have an encoding can be written. -/
theorem exists_write (seeds : Seeds) {password : String} (label : String) (key : Bytes) {id : Bytes}
    {certificates : List StoredCertificate} (hp : password.toList.all Utf16.isBasic = true)
    (hlabel : label.toList.all Utf16.isBasic = true) (hid : id.length ≤ 32)
    (hb : ∀ c ∈ certificates, c.subject.toList.all Utf16.isBasic = true) (hr : room certificates < 0x100000)
    (hk : key.length + 2 * label.length < 0x100000)
    (hs : seeds.certificates.salt.length + seeds.key.salt.length + seeds.mac.length < 0x100000) :
    ∃ file, write seeds password label key id certificates = some file := by
  obtain ⟨bags, hbags, hbagsLen⟩ := exists_bags hid hb hr
  obtain ⟨attributes, ha, hattributes⟩ := Attributes.exists_encode (some id) hlabel (by omega)
    (by intro b hb; obtain rfl := Option.some.inj hb; omega)
  simp only [Option.getD_some] at hattributes
  obtain ⟨keyBag, hkey, hkeyLen⟩ := exists_encodeKey seeds.key password key ha
    (by omega) (by omega) (by omega)
  have hbagsSeq := Der.Write.length_sequence_le bags le_rfl (by omega)
  have hkeySeq := Der.Write.length_sequence_le [keyBag] (n := keyBag.length) (by simp) (by omega)
  have hencrypted := length_encodeEncrypted_le seeds.certificates password
    (Der.Write.sequence bags) (by omega) (by omega)
  have hplain := length_encodePlain_le (Der.Write.sequence [keyBag]) (by omega)
  obtain ⟨file, hfile, hfileLen⟩ := exists_seal seeds.mac password
    [encodeEncrypted seeds.certificates password (Der.Write.sequence bags),
      encodePlain (Der.Write.sequence [keyBag])] hp (by omega) (by simp; omega)
  simp only [List.flatten_cons, List.flatten_nil, List.append_nil, List.length_append] at hfileLen
  have hfits : Der.Fits file := by
    unfold Der.Fits Der.maxLength
    omega
  refine ⟨file, ?_⟩
  simp [write, hbags, hkey, hfile, fitting?, show file.length ≤ Der.maxLength from hfits]

end Keystore
end CertRotation
