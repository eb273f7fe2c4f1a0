import CertRotation.Keystore.Basic
import CertRotation.Proofs.Keystore.ItemRoundTrip

/-!
# Keystore files are read as they were written

The parts of a file are revealed under the password that they were written with, whatever the salts and initial
vectors were, and the keyed hash over them is found to be right.
-/
namespace CertRotation.Keystore

theorem isStrict_dataOid : dataOid.isStrict = true := by cbv
theorem isStrict_encryptedDataOid : encryptedDataOid.isStrict = true := by cbv
theorem encryptedDataOid_ne_dataOid : encryptedDataOid ≠ dataOid := by decide_cbv

/-! ## Parts -/

theorem reads_part {type : Oid} {t : UInt8} {c : Bytes} (ho : type.isStrict = true) (ht : Der.isTag t = true)
    (h : Der.Fits (Der.Write.sequence [Der.Write.oid type, Der.Write.explicit 0 (Der.Write.tlv t c)])) :
    Der.Reads Part.reader (Der.Write.sequence [Der.Write.oid type, Der.Write.explicit 0 (Der.Write.tlv t c)])
      ⟨type, ⟨t, c⟩⟩ := by
  have hexplicit : Der.Fits (Der.Write.tlv 0xa0 (Der.Write.tlv t c)) := h.sequence (by simp [Der.Write.explicit])
  have helement := Der.reads_element ht hexplicit.contents.contents
  have hread := Der.reads_explicit (n := 0) (by decide) (by decide) (by decide) hexplicit.contents helement.whole []
  rw [List.append_nil] at hread
  apply Der.reads_sequence h.contents
  apply Der.whole?_of_run
  simp only [List.flatten_cons, List.flatten_nil, List.append_nil, StateT.run_bind, Der.reads_oid ho _, hread,
    Option.bind_eq_bind, Option.bind_some, StateT.run_pure]
  rfl

/-- Octets that are read as a part which reveals `contents`. -/
def Holds (password : String) (b contents : Bytes) : Prop :=
  ∃ p, Der.Reads Part.reader b p ∧ b ≠ [] ∧ p.reveal password = .ok contents

theorem holds_encodePlain {password : String} {contents : Bytes} (h : Der.Fits (encodePlain contents)) :
    Holds password (encodePlain contents) contents :=
  ⟨_, reads_part isStrict_dataOid (t := 0x04) (by decide) h, by simp [encodePlain, Der.Write.sequence, Der.Write.tlv],
    by simp [Part.reveal, orError]⟩

def encryptedFields (seed : Pbes2.Seed) (password : String) (contents : Bytes) : Bytes :=
  Der.Write.natural 0 ++ Der.Write.sequence [Der.Write.oid dataOid, seed.algorithm,
    Der.Write.implicit 0 (seed.encrypt (Bytes.ofString password) contents)]

theorem fields_of_encrypted {seed : Pbes2.Seed} {password : String} {contents : Bytes}
    (h : Der.Fits (encryptedFields seed password contents)) :
    Encrypted.fields.whole? (encryptedFields seed password contents) =
      some ⟨0, ⟨Pbes2.schemeOid, some ⟨0x30, seed.schemeFields⟩⟩,
        seed.encrypt (Bytes.ofString password) contents⟩ := by
  have hversion := Der.reads_naturalBelow (show 0 < 6 by decide) (by decide)
  have halgorithm : Der.Fits seed.algorithm := h.right.sequence (by simp)
  have himplicit : Der.Fits (Der.Write.tlv 0x80 (seed.encrypt (Bytes.ofString password) contents)) :=
    h.right.sequence (by simp [Der.Write.implicit])
  have htext := Der.reads_implicit (n := 0) (by decide) (by decide) (by decide) himplicit.contents []
  rw [List.append_nil] at htext
  have hinner : Der.Reads (Der.sequence Encrypted.contents)
      (Der.Write.sequence [Der.Write.oid dataOid, seed.algorithm,
        Der.Write.implicit 0 (seed.encrypt (Bytes.ofString password) contents)])
      (⟨Pbes2.schemeOid, some ⟨0x30, seed.schemeFields⟩⟩, seed.encrypt (Bytes.ofString password) contents) := by
    apply Der.reads_sequence h.right.contents
    apply Der.whole?_of_run
    simp only [Encrypted.contents, List.flatten_cons, List.flatten_nil, List.append_nil, StateT.run_bind,
      Der.reads_oid isStrict_dataOid _, Pbes2.reads_seed halgorithm _, htext, Option.bind_eq_bind, Option.bind_some,
      StateT.run_pure]
    rfl
  have hrun := hinner []
  rw [List.append_nil] at hrun
  apply Der.whole?_of_run
  simp only [Encrypted.fields, encryptedFields, StateT.run_bind, hversion _, hrun, Der.run_optional_nil,
    Option.bind_eq_bind, Option.bind_some, StateT.run_pure]
  rfl

theorem holds_encodeEncrypted {seed : Pbes2.Seed} {password : String} {contents : Bytes}
    (h : Der.Fits (encodeEncrypted seed password contents)) :
    Holds password (encodeEncrypted seed password contents) contents := by
  have heq : encodeEncrypted seed password contents = Der.Write.sequence [Der.Write.oid encryptedDataOid,
      Der.Write.explicit 0 (Der.Write.tlv 0x30 (encryptedFields seed password contents))] := by
    simp [encodeEncrypted, encryptedFields, Der.Write.sequence]
  rw [heq] at h ⊢
  have hexplicit : Der.Fits (Der.Write.tlv 0xa0 (Der.Write.tlv 0x30 (encryptedFields seed password contents))) :=
    h.sequence (by simp [Der.Write.explicit])
  have hfits := hexplicit.contents.contents
  have halgorithm : Der.Fits seed.algorithm := hfits.right.sequence (by simp)
  refine ⟨_, reads_part isStrict_encryptedDataOid (by decide) h, by simp [Der.Write.sequence, Der.Write.tlv], ?_⟩
  simp [Part.reveal, encryptedDataOid_ne_dataOid, Der.Element.within?, fields_of_encrypted hfits, orError, bind,
    Except.bind, decrypt_encrypt halgorithm]

/-! ## Integrity -/

namespace Mac

theorem isStrict_sha256Oid : sha256Oid.isStrict = true := by cbv
theorem sha256Oid_ne_sha1Oid : sha256Oid ≠ sha1Oid := by decide

def ofBody (units salt body : Bytes) : Mac :=
  ⟨sha256Oid, compute sha256 units salt Pbes2.rounds body, salt, Pbes2.rounds⟩

theorem reads_rounds : Der.Reads Der.integer32 (Der.Write.natural Pbes2.rounds) (Pbes2.rounds : Int) := by
  intro rest
  have hcontents : Der.Write.natural Pbes2.rounds = Der.Write.tlv 0x02 [0x27, 0x10] := by decide
  have hread := Der.reads_contentsOf (t := 0x02) (c := [0x27, 0x10]) (by decide) (by decide) rest
  have hvalue : Der.integer32? [0x27, 0x10] = some (Pbes2.rounds : Int) := by decide
  rw [hcontents]
  simp only [Der.integer32, StateT.run_bind, hread, hvalue, Der.run_ofOption_some, Option.bind_eq_bind,
    Option.bind_some]

theorem reads_encode {units salt body : Bytes} (h : Der.Fits (ofBody units salt body).encode) :
    Der.Reads reader (ofBody units salt body).encode (ofBody units salt body) := by
  obtain ⟨digest, hdigest⟩ : ∃ d, d = compute sha256 units salt Pbes2.rounds body := ⟨_, rfl⟩
  have heq : (ofBody units salt body).encode = Der.Write.sequence [
      Der.Write.sequence [Der.Write.sequence [Der.Write.oid sha256Oid, Der.Write.tlv 0x05 []],
        Der.Write.octetString digest],
      Der.Write.octetString salt, Der.Write.natural Pbes2.rounds] := by
    rw [hdigest]
    rfl
  rw [heq] at h ⊢
  have hhash : Der.Fits (Der.Write.sequence [Der.Write.sequence [Der.Write.oid sha256Oid, Der.Write.tlv 0x05 []],
    Der.Write.octetString digest]) := h.sequence (by simp)
  have hsalt : Der.Fits (Der.Write.octetString salt) := h.sequence (by simp)
  have hoctets : Der.Fits (Der.Write.octetString digest) := hhash.sequence (by simp)
  have halgorithm := Der.reads_algorithm (o := sha256Oid) (t := 0x05) (c := []) isStrict_sha256Oid (by decide)
    (by cbv)
  have hread := Der.reads_octetString hoctets.contents []
  have hinner : Der.Reads (Der.sequence do
      let a ← Der.algorithm
      let digest ← Der.octetString
      pure (a, digest)) _ (⟨sha256Oid, some ⟨0x05, []⟩⟩, digest) := Der.reads_sequence hhash.contents (by
    rw [List.append_nil] at hread
    apply Der.whole?_of_run
    simp only [List.flatten_cons, List.flatten_nil, List.append_nil, StateT.run_bind, halgorithm _, hread,
      Option.bind_eq_bind, Option.bind_some, StateT.run_pure]
    rfl)
  have hrounds : Der.Write.natural Pbes2.rounds = 0x02 :: (Der.Write.natural Pbes2.rounds).tail := by decide
  have hoptional := Der.Reads.optional (t := 0x02) (by decide) (hrounds ▸ reads_rounds) []
  rw [List.append_nil, ← hrounds] at hoptional
  apply Der.reads_sequence h.contents
  apply Der.whole?_of_run
  simp only [List.flatten_cons, List.flatten_nil, List.append_nil, StateT.run_bind, hinner _,
    Der.reads_octetString hsalt.contents _, hoptional, Option.bind_eq_bind, Option.bind_some, StateT.run_pure]
  rw [ofBody, hdigest]
  rfl

theorem check_ofBody {password : String} {units : Bytes} (salt body : Bytes)
    (h : passwordUnits? password = some units) : (ofBody units salt body).check password body = .ok () := by
  simp [check, digestFor, ofBody, sha256Oid_ne_sha1Oid, h, orError, bind, Except.bind, pure, Except.pure]

end Mac

/-! ## Files -/

/-- The envelope of a file: its version, its body and the keyed hash over that. -/
theorem envelope_whole? {units salt body : Bytes}
    (h : Der.Fits (Der.Write.sequence [Der.Write.natural 3, encodePlain body, (Mac.ofBody units salt body).encode])) :
    Envelope.reader.whole?
        (Der.Write.sequence [Der.Write.natural 3, encodePlain body, (Mac.ofBody units salt body).encode]) =
      some ⟨⟨dataOid, ⟨0x04, body⟩⟩, some (Mac.ofBody units salt body)⟩ := by
  have hbody : Der.Fits (encodePlain body) := h.sequence (by simp)
  have hmac : Der.Fits (Mac.ofBody units salt body).encode := h.sequence (by simp)
  have hpart : Der.Reads Part.reader (encodePlain body) ⟨dataOid, ⟨0x04, body⟩⟩ :=
    reads_part isStrict_dataOid (by decide) hbody
  have hread := Mac.reads_encode hmac
  obtain ⟨mac, hm⟩ : ∃ m, m = (Mac.ofBody units salt body).encode := ⟨_, rfl⟩
  obtain ⟨rest, hrest⟩ : ∃ rest, mac = 0x30 :: rest := ⟨_, hm.trans rfl⟩
  rw [← hm] at h hread ⊢
  have hoptional := Der.Reads.optional (t := 0x30) (by decide) (hrest ▸ hread) []
  rw [List.append_nil, ← hrest] at hoptional
  refine (Der.reads_sequence h.contents ?_).whole
  apply Der.whole?_of_run
  simp only [List.flatten_cons, List.flatten_nil, List.append_nil, StateT.run_bind,
    Der.reads_natural (n := 3) (by decide) _, Option.bind_eq_bind, Option.bind_some,
    Der.run_require_true (p := decide True) (by decide), hpart mac, hoptional, StateT.run_pure]
  rfl

theorem reveal_envelope {password : String} {units : Bytes} (salt body : Bytes)
    (h : passwordUnits? password = some units) :
    (⟨⟨dataOid, ⟨0x04, body⟩⟩, some (Mac.ofBody units salt body)⟩ : Envelope).reveal password = .ok body := by
  simp [Envelope.reveal, Mac.check_ofBody salt body h, orError, bind, Except.bind]

theorem parts_of_forall₂ {password : String} {pieces : List Bytes} {items : List (List Item)}
    (h : List.Forall₂ (fun b i => ∃ contents, Holds password b contents ∧ itemsOf contents password = .ok i)
      pieces items) (hp : Der.Fits pieces.flatten) :
    ∃ parts, (Der.sequence (Der.many Part.reader)).whole? (Der.Write.sequence pieces) = some parts ∧
      (parts.mapM fun p => do
        let contents ← p.reveal password
        itemsOf contents password) = .ok items := by
  obtain ⟨parts, hparts, hitems⟩ : ∃ parts,
      List.Forall₂ (fun b p => Der.Reads Part.reader b p ∧ b ≠ []) pieces parts ∧
        List.Forall₂ (fun (p : Part) i => (do
          let contents ← p.reveal password
          itemsOf contents password) = .ok i) parts items := by
    clear hp
    induction h with
    | nil => exact ⟨[], .nil, .nil⟩
    | cons hx _ ih =>
      obtain ⟨contents, ⟨p, hp, hne, hreveal⟩, hi⟩ := hx
      obtain ⟨parts, hparts, hitems⟩ := ih
      exact ⟨p :: parts, .cons ⟨hp, hne⟩ hparts, .cons (by simp [hreveal, hi, bind, Except.bind]) hitems⟩
  exact ⟨parts, (Der.reads_sequence hp (Der.whole?_many hparts)).whole, mapM_eq_ok.mpr hitems⟩

theorem fits_encodePlain {contents : Bytes} (h : Der.Fits (encodePlain contents)) : Der.Fits contents := by
  have hexplicit : Der.Fits (Der.Write.tlv 0xa0 (Der.Write.octetString contents)) :=
    h.sequence (by simp [Der.Write.explicit])
  exact hexplicit.contents.contents

theorem seal?_eq_some {salt : Bytes} {password : String} {file : Bytes} {pieces : List Bytes}
    (h : seal? salt password pieces = some file) :
    ∃ units, passwordUnits? password = some units ∧
      file = Der.Write.sequence [Der.Write.natural 3, encodePlain (Der.Write.sequence pieces),
        (Mac.ofBody units salt (Der.Write.sequence pieces)).encode] := by
  obtain ⟨units, hunits, hfile⟩ := Option.map_eq_some_iff.mp h
  exact ⟨units, hunits, hfile.symm⟩

theorem fits_of_seal {salt : Bytes} {password : String} {file : Bytes} {pieces : List Bytes}
    (h : seal? salt password pieces = some file) (hf : Der.Fits file) : Der.Fits pieces.flatten := by
  obtain ⟨units, -, rfl⟩ := seal?_eq_some h
  have hbody : Der.Fits (encodePlain (Der.Write.sequence pieces)) := hf.sequence (by simp)
  exact (fits_encodePlain hbody).contents

/-- The parts of a sealed file give back their items. -/
theorem readItems_of_seal {salt : Bytes} {password : String} {file : Bytes} {pieces : List Bytes}
    {items : List (List Item)} (hs : seal? salt password pieces = some file) (hf : Der.Fits file)
    (h : List.Forall₂ (fun b i => ∃ contents, Holds password b contents ∧ itemsOf contents password = .ok i)
      pieces items) : readItems file password = .ok items.flatten := by
  obtain ⟨parts, hparts, hitems⟩ := parts_of_forall₂ h (fits_of_seal hs hf)
  obtain ⟨units, hunits, rfl⟩ := seal?_eq_some hs
  simp only [readItems, envelope_whole? hf, orError, bind, Except.bind, reveal_envelope _ _ hunits, hparts]
  simp only [bind, Except.bind] at hitems
  rw [hitems]
  rfl

end CertRotation.Keystore
