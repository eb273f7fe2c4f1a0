import CertRotation.Keystore.Item
import CertRotation.Proofs.Encryption.SchemeRoundTrip
import CertRotation.Proofs.Keystore.AttributesRoundTrip

/-!
# Items are read as they were written

A bag comes back with its type, its value and its attributes. A certificate comes back octet for octet, and a key
under the password that it was encrypted with.
-/
namespace CertRotation.Keystore

/-- What a seed encrypts, its algorithm identifier decrypts. -/
theorem decrypt_encrypt {seed : Pbes2.Seed} (h : Der.Fits seed.algorithm) (password : String) (plain : Bytes) :
    decrypt ⟨Pbes2.schemeOid, some ⟨0x30, seed.schemeFields⟩⟩ password
      (seed.encrypt (Bytes.ofString password) plain) = .ok plain := by
  have hscheme := Pbes2.scheme?_of_seed (Pbes2.Seed.fits_schemeFields h)
  simp only [decrypt, if_pos, orError, hscheme, bind, Except.bind, Pbes2.Seed.decrypt_encrypt, Except.mapError]

/-! ## Bags -/

theorem reads_bag {type : Oid} {value b : Bytes} {a : Attributes} (ht : type.isStrict = true)
    (h : encodeBag? type value a = some b) (hb : Der.Fits b) :
    Der.Reads Bag.reader b ⟨type, ⟨0xa0, value⟩, a⟩ ∧ b ≠ [] ∧ Der.Fits value := by
  obtain ⟨attributes, ha, rfl⟩ := Option.map_eq_some_iff.mp h
  have hvalue : Der.Fits (Der.Write.tlv 0xa0 value) := hb.sequence (by simp [Der.Write.explicit])
  have hattributes : Der.Fits attributes := hb.sequence (by simp)
  refine ⟨?_, by simp [Der.Write.sequence, Der.Write.tlv], hvalue.contents⟩
  apply Der.reads_sequence hb.contents
  apply Der.whole?_of_run
  have helement := Der.reads_element (t := 0xa0) (by decide) hvalue.contents attributes
  have hoptional : (Der.optional 0x31 Attributes.reader).run attributes =
      some (if attributes = [] then none else some a, []) := by
    rcases Attributes.reads_encode ha hattributes with ⟨rfl, -⟩ | ⟨⟨c, rfl⟩, hread⟩
    · rfl
    · have := Der.Reads.optional (by decide) hread []
      rwa [List.append_nil] at this
  have hsay : (if attributes = [] then none else some a).getD {} = a := by
    rcases Attributes.reads_encode ha hattributes with ⟨rfl, rfl⟩ | ⟨⟨c, rfl⟩, -⟩ <;> rfl
  simp only [List.flatten_cons, List.flatten_nil, List.append_nil, StateT.run_bind, Der.reads_oid ht _,
    show Der.Write.explicit 0 value = Der.Write.tlv 0xa0 value from rfl, helement, hoptional, hsay,
    Option.bind_eq_bind, Option.bind_some, StateT.run_pure]
  rfl

theorem within?_explicit {α : Type} (type : Oid) (value : Bytes) (a : Attributes) (r : Der.Reader α) :
    (⟨type, ⟨0xa0, value⟩, a⟩ : Bag).within? r = r.whole? value :=
  if_pos (show (0xa0 : UInt8) &&& 0xe0 = 0xa0 by decide)

/-! ## Certificates -/

theorem isStrict_certificateOid : Bag.certificateOid.isStrict = true := by cbv
theorem isStrict_encryptedKeyOid : Bag.encryptedKeyOid.isStrict = true := by cbv
theorem isStrict_x509Oid : Bag.x509Oid.isStrict = true := by cbv
theorem encryptedKeyOid_ne_certificateOid : Bag.encryptedKeyOid ≠ Bag.certificateOid := by decide_cbv

def certificateValue (der : Bytes) : Bytes :=
  Der.Write.sequence [Der.Write.oid Bag.x509Oid, Der.Write.explicit 0 (Der.Write.octetString der)]

theorem certificateFields_of_value {der : Bytes} (h : Der.Fits (certificateValue der)) :
    (Der.sequence Bag.certificateFields).whole? (certificateValue der) = some (Bag.x509Oid, der) := by
  have hexplicit : Der.Fits (Der.Write.tlv 0xa0 (Der.Write.octetString der)) := h.sequence (by simp [Der.Write.explicit])
  have hder := Der.reads_octetString hexplicit.contents.contents
  have hread := Der.reads_explicit (n := 0) (by decide) (by decide) (by decide) hexplicit.contents hder.whole []
  rw [List.append_nil] at hread
  refine (Der.reads_sequence h.contents ?_).whole
  apply Der.whole?_of_run
  simp only [Bag.certificateFields, List.flatten_cons, List.flatten_nil, List.append_nil, StateT.run_bind,
    Der.reads_oid isStrict_x509Oid _, hread, Option.bind_eq_bind, Option.bind_some, StateT.run_pure]
  rfl

/-- Attributes do not bear on whether octets are a certificate. -/
theorem ofDer?_attributes {der : Bytes} {c : StoredCertificate} {a : Attributes} (b : Attributes)
    (h : StoredCertificate.ofDer? der a = some c) :
    StoredCertificate.ofDer? der b = some { c with attributes := b } := by
  obtain ⟨p, hp, rfl⟩ := Option.map_eq_some_iff.mp h
  simp [StoredCertificate.ofDer?, hp]

/-- A stored certificate comes back with the attributes that it was stored with. -/
theorem item?_certificate {der : Bytes} {c : StoredCertificate} (a : Attributes) (password : String)
    (h : Der.Fits (certificateValue der)) (hc : StoredCertificate.ofDer? der {} = some c) :
    (⟨Bag.certificateOid, ⟨0xa0, certificateValue der⟩, a⟩ : Bag).item? password =
      .ok (some (.certificate { c with attributes := a })) := by
  simp [Bag.item?, within?_explicit, certificateFields_of_value h, orError, bind, Except.bind, pure, Except.pure,
    ofDer?_attributes a hc]

/-! ## Keys -/

def keyValue (seed : Pbes2.Seed) (password : String) (key : Bytes) : Bytes :=
  Der.Write.sequence [seed.algorithm, Der.Write.octetString (seed.encrypt (Bytes.ofString password) key)]

theorem encryptedFields_of_value {seed : Pbes2.Seed} {password : String} {key : Bytes}
    (h : Der.Fits (keyValue seed password key)) :
    (Der.sequence Bag.encryptedFields).whole? (keyValue seed password key) =
      some (⟨Pbes2.schemeOid, some ⟨0x30, seed.schemeFields⟩⟩, seed.encrypt (Bytes.ofString password) key) := by
  have halgorithm : Der.Fits seed.algorithm := h.sequence (by simp)
  have htext : Der.Fits (Der.Write.octetString (seed.encrypt (Bytes.ofString password) key)) := h.sequence (by simp)
  have hread := Der.reads_octetString htext.contents []
  rw [List.append_nil] at hread
  refine (Der.reads_sequence h.contents ?_).whole
  apply Der.whole?_of_run
  simp only [Bag.encryptedFields, List.flatten_cons, List.flatten_nil, List.append_nil, StateT.run_bind,
    Pbes2.reads_seed halgorithm _, hread, Option.bind_eq_bind, Option.bind_some, StateT.run_pure]
  rfl

theorem item?_key {seed : Pbes2.Seed} {password : String} {key : Bytes} (a : Attributes)
    (h : Der.Fits (keyValue seed password key)) :
    (⟨Bag.encryptedKeyOid, ⟨0xa0, keyValue seed password key⟩, a⟩ : Bag).item? password =
      .ok (some (.key ⟨key, a⟩)) := by
  have halgorithm : Der.Fits seed.algorithm := h.sequence (by simp)
  simp [Bag.item?, encryptedKeyOid_ne_certificateOid, within?_explicit, encryptedFields_of_value h, orError, bind,
    Except.bind, pure, Except.pure, decrypt_encrypt halgorithm]

/-! ## All items of a part -/

theorem itemsOf_of_forall₂ {password : String} {bags : List Bytes} {items : List Item}
    (h : List.Forall₂ (fun b i => ∃ bag, Der.Reads Bag.reader b bag ∧ b ≠ [] ∧ bag.item? password = .ok (some i))
      bags items) (hb : Der.Fits bags.flatten) :
    itemsOf (Der.Write.sequence bags) password = .ok items := by
  obtain ⟨values, hvalues, hitems⟩ : ∃ values,
      List.Forall₂ (fun b bag => Der.Reads Bag.reader b bag ∧ b ≠ []) bags values ∧
        List.Forall₂ (fun bag i => bag.item? password = .ok i) values (items.map some) := by
    induction h with
    | nil => exact ⟨[], .nil, .nil⟩
    | @cons b i bags items hx _ ih =>
      obtain ⟨bag, hread, hne, hitem⟩ := hx
      obtain ⟨values, hvalues, hitems⟩ := ih hb.right
      exact ⟨bag :: values, .cons ⟨hread, hne⟩ hvalues, .cons hitem hitems⟩
  have hseq := (Der.reads_sequence hb (Der.whole?_many hvalues)).whole
  simp [itemsOf, hseq, orError, bind, Except.bind, pure, Except.pure, mapM_eq_ok.mpr hitems]

end CertRotation.Keystore
